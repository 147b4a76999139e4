import Brainfuck.Proofs.Interruption
import Brainfuck.Proofs.Watching

/-!
A worker that evaluates a job and a caller that waits for the answer, joined by a channel for one
message and by the cancel flag. The two proceed in any order. The worker checks the flag before
each instruction; the caller waits until a message is there or its time is up, and in the second
case raises the flag and answers for itself.

Main statement: what the worker and the caller answer in every interleaving, and that both do.
-/

namespace Brainfuck

variable {σ : Type}

/-- What the worker is about to do: begin, look at the next place of the program, execute the
instruction there that its check has allowed, send its answer, or nothing more. -/
inductive Worker (σ : Type) where
  | fresh
  | looking (steps : Nat) (s : State) (watched : σ)
  | cleared (steps : Nat) (s : State) (watched : σ)
  | answered (watched : σ) (r : Except Error Report)
  | gone (watched : σ) (r : Except Error Report)

def Worker.answer? : Worker σ → Option (Except Error Report)
  | .answered _ r | .gone _ r => some r
  | _ => none

def Worker.isGone : Worker σ → Bool
  | .gone _ _ => true
  | _ => false

inductive Caller where
  | waiting
  | expired
  | returned (r : Except Error Report)

structure Exchange (σ : Type) where
  worker : Worker σ
  flag : Bool
  message : Option (Except Error Report)
  caller : Caller

/-- What happens next, first to the worker and then to the caller. -/
inductive Event where
  | started
  | checked
  | executed
  | finished
  | sent
  | received
  | expired
  | raised
  | hungUp
deriving DecidableEq

namespace Job

/-- The worker once it has begun. -/
def begun (job : Job σ) : Worker σ :=
  if balanced job.source.toList then
    match job.monitor.started job.watched with
    | (watched, some e) => .answered watched (.error e)
    | (watched, none) => .looking 0 job.initial watched
  else
    .answered job.watched (.error (.ofUnbalanced job.source.toList))

/-- The worker after a check that reads the flag. -/
def checked (job : Job σ) (flag : Bool) (steps : Nat) (s : State) (watched : σ) : Worker σ :=
  match (job.control fun _ => flag).objection? steps with
  | some e => .answered watched (.error e)
  | none => .cleared steps s watched

/-- The worker after an instruction that its check has allowed. -/
def executed (job : Job σ) (steps : Nat) (s : State) (watched : σ) : Worker σ :=
  match turn job.program .free job.monitor steps s watched with
  | .ended watched r => .answered watched r
  | .went watched next => .looking (steps + 1) next watched

/-- The steps of the two parties. Nothing but the caller whose time is up raises the flag. -/
inductive Moves (job : Job σ) : Exchange σ → Event → Exchange σ → Prop where
  | started {x : Exchange σ} : x.worker = .fresh →
      Moves job x .started { x with worker := job.begun }
  | checked {x : Exchange σ} {steps : Nat} {s : State} {w : σ} {c : Char} :
      x.worker = .looking steps s w → job.program[s.ip]? = some c →
      Moves job x .checked { x with worker := job.checked x.flag steps s w }
  | executed {x : Exchange σ} {steps : Nat} {s : State} {w : σ} :
      x.worker = .cleared steps s w →
      Moves job x .executed { x with worker := job.executed steps s w }
  | finished {x : Exchange σ} {steps : Nat} {s : State} {w : σ} :
      x.worker = .looking steps s w → job.program[s.ip]? = none →
      Moves job x .finished { x with worker := .answered w (.ok (s.report steps)) }
  | sent {x : Exchange σ} {w : σ} {r : Except Error Report} :
      x.worker = .answered w r →
      Moves job x .sent { x with worker := .gone w r, message := delivery r }
  | received {x : Exchange σ} {r : Except Error Report} :
      x.caller = .waiting → x.message = some r →
      Moves job x .received { x with caller := .returned r, message := none }
  | expired {x : Exchange σ} : x.caller = .waiting →
      Moves job x .expired { x with caller := .expired }
  | raised {x : Exchange σ} : x.caller = .expired →
      Moves job x .raised { x with caller := .returned (.error .cancelled), flag := true }
  | hungUp {x : Exchange σ} {w : σ} {r : Except Error Report} :
      x.caller = .waiting → x.message = none → x.worker = .gone w r →
      Moves job x .hungUp { x with caller := .returned (.error .cancelled) }

/-- The events, in this order, lead from the start to `x`. -/
inductive Leads (job : Job σ) : List Event → Exchange σ → Prop where
  | start : Leads job [] ⟨.fresh, false, none, .waiting⟩
  | next {events : List Event} {x y : Exchange σ} {e : Event} :
      Leads job events x → Moves job x e y → Leads job (events ++ [e]) y

end Job

/-- The checks made before the flag was raised, all of them if it was not. -/
def unseenChecks (events : List Event) : Nat :=
  (events.takeWhile (· ≠ .raised)).count .checked

/-- What the check number `n` sees of the flag. -/
def seesFlag (events : List Event) (n : Nat) : Bool :=
  decide (.raised ∈ events) && decide (unseenChecks events ≤ n)

/-- The raise of the flag and all that happened after it. -/
def sinceRaise (events : List Event) : List Event :=
  events.dropWhile (· ≠ .raised)

section Histories

variable {events : List Event} {a e : Event}

theorem unseenChecks_cons (h : a ≠ .raised) :
    unseenChecks (a :: events) = unseenChecks events + if a = .checked then 1 else 0 := by
  simp [unseenChecks, h, List.count_cons]

theorem sinceRaise_cons (h : a ≠ .raised) : sinceRaise (a :: events) = sinceRaise events := by
  simp [sinceRaise, h]

theorem unseenChecks_concat (events : List Event) (e : Event) :
    unseenChecks (events ++ [e]) =
      unseenChecks events + if .raised ∉ events ∧ e = .checked then 1 else 0 := by
  induction events with
  | nil => cases e <;> rfl
  | cons a events ih =>
      by_cases ha : a = .raised
      · simp [unseenChecks, ha]
      · have ha' : .raised ≠ a := fun h => ha h.symm
        simp only [List.cons_append, unseenChecks_cons ha, ih, List.mem_cons, ha', false_or]
        omega

theorem unseenChecks_other (h : e ≠ .checked) :
    unseenChecks (events ++ [e]) = unseenChecks events := by
  rw [unseenChecks_concat, if_neg (fun hboth => h hboth.2), Nat.add_zero]

theorem sinceRaise_concat (h : .raised ∈ events) :
    sinceRaise (events ++ [e]) = sinceRaise events ++ [e] := by
  induction events with
  | nil => cases h
  | cons a events ih =>
      by_cases ha : a = .raised
      · simp [sinceRaise, ha]
      · have ha' : .raised ≠ a := fun h => ha h.symm
        have hmem : .raised ∈ events := (List.mem_cons.mp h).resolve_left ha'
        rw [List.cons_append, sinceRaise_cons ha, sinceRaise_cons ha, ih hmem]

theorem sinceRaise_raised (h : .raised ∉ events) :
    sinceRaise (events ++ [.raised]) = [.raised] := by
  induction events with
  | nil => rfl
  | cons a events ih =>
      rw [List.mem_cons, not_or] at h
      have ha : a ≠ .raised := fun h' => h.1 h'.symm
      rw [List.cons_append, sinceRaise_cons ha, ih h.2]

theorem count_executed_other (h : e ≠ .executed) :
    (events ++ [e]).count .executed = events.count .executed := by
  rw [List.count_append, List.count_singleton, if_neg (by simpa using h), Nat.add_zero]

end Histories

namespace Job

/-- The answer of a worker after these events. It is that of the job with the flag never raised,
and then all checks that the job makes were made before the raise, or the first check after the
raise found the flag. A crash takes more instructions than the word counts. -/
structure Settles (job : Job σ) (events : List Event) (w : σ) (r : Except Error Report) :
    Prop where
  result :
    ((∃ fuel, job.run never fuel = ⟨w, some r⟩) ∧ ∀ n, job.Checks n → n < unseenChecks events) ∨
      (r = .error .cancelled ∧ .raised ∈ events ∧ job.Checks (unseenChecks events))
  crash : ∀ cause, r = .error (.crash cause) → wordMax < events.count .executed
  reached : ∀ k < events.count .executed, ∃ t u, job.before? k = some (t, u)

/-- How far the worker has come, told by the job with the flag never raised. -/
def Stands (job : Job σ) (events : List Event) : Worker σ → Prop
  | .fresh => unseenChecks events = 0 ∧ events.count .executed = 0
  | .looking steps s w =>
    job.before? steps = some (s, w) ∧ unseenChecks events = steps ∧
      events.count .executed = steps
  | .cleared steps s w =>
    job.before? steps = some (s, w) ∧ (∃ c, job.program[s.ip]? = some c) ∧
      (job.control never).objection? steps = none ∧ unseenChecks events = steps + 1 ∧
      events.count .executed = steps
  | .answered w r | .gone w r => job.Settles events w r

section Worker

variable {job : Job σ} {events : List Event} {e : Event} {n steps : Nat} {s t : State} {w u : σ}
  {r : Except Error Report}

theorem Settles.later (h : job.Settles events w r) (hcheck : e ≠ .checked)
    (hexec : e ≠ .executed) : job.Settles (events ++ [e]) w r where
  result := by
    rw [unseenChecks_other hcheck]
    rcases h.result with hnever | ⟨hr, hraised, hchecks⟩
    · exact .inl hnever
    · exact .inr ⟨hr, List.mem_append_left _ hraised, hchecks⟩
  crash := by
    rw [count_executed_other hexec]
    exact h.crash
  reached := by
    rw [count_executed_other hexec]
    exact h.reached

theorem Stands.later {worker : Worker σ} (h : job.Stands events worker) (hcheck : e ≠ .checked)
    (hexec : e ≠ .executed) : job.Stands (events ++ [e]) worker := by
  cases worker with
  | fresh | looking _ _ _ | cleared _ _ _ =>
      simpa only [Stands, unseenChecks_other hcheck, count_executed_other hexec] using h
  | answered w r | gone w r => exact Settles.later h hcheck hexec

/-- The turn that ends the job settles the answer, if all its checks came before the raise. -/
theorem settles_of_ended (hs : job.before? n = some (s, w))
    (hturn : turn job.program (job.control never) job.monitor n s w = .ended u r)
    (hunseen : ∀ k, job.Checks k → k < unseenChecks events)
    (hcrash : ∀ cause, r = .error (.crash cause) → wordMax < events.count .executed)
    (hcount : events.count .executed ≤ n + 1) : job.Settles events u r where
  result := .inl ⟨⟨n + 1, run_of_ended hs hturn (Nat.lt_succ_self n)⟩, hunseen⟩
  crash := hcrash
  reached k hk := before?_of_le hs (by omega)

theorem stands_begun (hmonitor : job.monitor.FailsInTable) (h : job.Stands events .fresh) :
    job.Stands (events ++ [.started]) job.begun := by
  obtain ⟨hchecks, hcount⟩ := h
  rw [← unseenChecks_other (e := .started) (by decide)] at hchecks
  rw [← count_executed_other (e := .started) (by decide)] at hcount
  generalize events ++ [.started] = events' at hchecks hcount ⊢
  rw [begun]
  cases hv : balanced job.source.toList with
  | false =>
      rw [if_neg (by decide)]
      refine ⟨.inl ⟨⟨0, Machine.execute_of_unbalanced hv⟩, ?_⟩, ?_, by omega⟩
      · rintro n ⟨t, u, c, hbefore, -⟩
        have hbalanced := (before?_eq_some_iff.mp hbefore).1
        rw [hv] at hbalanced
        cases hbalanced
      · rintro cause hr
        exact absurd (Except.error.inj hr) (Error.ofUnbalanced_ne_crash _ _)
  | true =>
      rw [if_pos rfl]
      cases hstarted : job.monitor.started job.watched with
      | mk w objection =>
          cases objection with
          | none => exact ⟨before?_eq_some_iff.mpr ⟨hv, w, hstarted, rfl⟩, hchecks, hcount⟩
          | some e =>
              refine ⟨.inl ⟨⟨0, ?_⟩, ?_⟩, ?_, by omega⟩
              · rw [run, Machine.execute, if_pos hv, hstarted]
              · rintro n ⟨t, u, c, hbefore, -⟩
                obtain ⟨-, w', hstarted', -⟩ := before?_eq_some_iff.mp hbefore
                rw [hstarted] at hstarted'
                cases hstarted'
              · rintro cause ⟨⟩
                obtain ⟨reason, hreason⟩ := hmonitor.started _ _ (congrArg Prod.snd hstarted)
                cases hreason

theorem checked_unraised (job : Job σ) (steps : Nat) (s : State) (w : σ) :
    job.checked false steps s w =
      match (job.control never).objection? steps with
      | some e => Worker.answered w (.error e)
      | none => Worker.cleared steps s w :=
  rfl

theorem checked_raised (job : Job σ) (steps : Nat) (s : State) (w : σ) :
    job.checked true steps s w = .answered w (.error .cancelled) := by
  have hstop : (job.control fun _ => true).objection? steps = some .cancelled := by
    rw [Control.objection?_eq_some_iff]
    exact .inl ⟨rfl, rfl⟩
  rw [checked, hstop]

theorem stands_checked (h : job.Stands events (.looking steps s w)) {c : Char}
    (hc : job.program[s.ip]? = some c) :
    job.Stands (events ++ [.checked]) (job.checked (decide (.raised ∈ events)) steps s w) := by
  obtain ⟨hbefore, hchecks, hcount⟩ := h
  have hunseen := unseenChecks_concat events .checked
  rw [← count_executed_other (e := .checked) (by decide)] at hcount
  by_cases hraised : .raised ∈ events
  · rw [if_neg (fun hboth => hboth.1 hraised), hchecks] at hunseen
    simp only [hraised, decide_true]
    rw [checked_raised]
    refine ⟨.inr ⟨rfl, List.mem_append_left _ hraised, ?_⟩, ?_, ?_⟩
    · rw [hunseen]
      exact ⟨s, w, c, hbefore, hc⟩
    · rintro cause ⟨⟩
    · intro k hk
      exact before?_of_le hbefore (by omega)
  · rw [if_pos ⟨hraised, rfl⟩, hchecks] at hunseen
    simp only [hraised, decide_false]
    rw [checked_unraised]
    cases hstop : (job.control never).objection? steps with
    | none => exact ⟨hbefore, ⟨c, hc⟩, hstop, hunseen, hcount⟩
    | some e =>
        have hturn : turn job.program (job.control never) job.monitor steps s w =
            .ended w (.error e) := turn_of_halts (.stopped hc hstop) w
        refine settles_of_ended hbefore hturn ?_ ?_ (by omega)
        · rintro k ⟨t, u, d, hk, -⟩
          have hle := le_of_before? hbefore hturn hk
          omega
        · rintro cause ⟨⟩
          exact absurd trivial (Control.not_isInternal_of_objection? hstop)

theorem stands_finished (h : job.Stands events (.looking steps s w))
    (hout : job.program[s.ip]? = none) :
    job.Stands (events ++ [.finished]) (.answered w (.ok (s.report steps))) := by
  obtain ⟨hbefore, hchecks, hcount⟩ := h
  rw [← unseenChecks_other (e := .finished) (by decide)] at hchecks
  rw [← count_executed_other (e := .finished) (by decide)] at hcount
  have hturn : turn job.program (job.control never) job.monitor steps s w =
      .ended w (.ok (s.report steps)) := turn_of_halts (.finished hout) w
  refine settles_of_ended hbefore hturn ?_ ?_ (by omega)
  · rintro k ⟨t, u, c, hk, hc⟩
    have hle := le_of_before? hbefore hturn hk
    have hne : k ≠ steps := by
      rintro rfl
      rw [hbefore] at hk
      cases hk
      rw [hout] at hc
      cases hc
    omega
  · rintro cause ⟨⟩

theorem turn_free_of_allowed (hallowed : (job.control never).objection? steps = none) :
    turn job.program .free job.monitor steps s w =
      turn job.program (job.control never) job.monitor steps s w := by
  apply turn_congr
  intro c _
  rw [Control.objection?_free, hallowed]

theorem stands_executed (hmonitor : job.monitor.FailsInTable)
    (h : job.Stands events (.cleared steps s w)) :
    job.Stands (events ++ [.executed]) (job.executed steps s w) := by
  obtain ⟨hbefore, ⟨c, hc⟩, hallowed, hchecks, hcount⟩ := h
  rw [← unseenChecks_other (e := .executed) (by decide)] at hchecks
  have hcount' : (events ++ [Event.executed]).count .executed = steps + 1 := by
    rw [List.count_append, hcount]
    rfl
  have hsame := turn_free_of_allowed (s := s) (w := w) hallowed
  rw [executed]
  cases hturn : turn job.program .free job.monitor steps s w with
  | went u next =>
      rw [hsame] at hturn
      exact ⟨before?_succ_of_went hbefore hturn, hchecks, hcount'⟩
  | ended u r =>
      have hends := hturn
      rw [hsame] at hends
      refine settles_of_ended hbefore hends ?_ ?_ (by omega)
      · rintro k ⟨t, v, d, hk, -⟩
        have hle := le_of_before? hbefore hends hk
        omega
      · rintro cause rfl
        rw [hcount']
        rcases halts_or_monitor_of_turn hturn with hhalts | ⟨row, e, hexec, he⟩
        · obtain ⟨hv, w', -, hwent⟩ := before?_eq_some_iff.mp hbefore
          by_contra hword
          exact not_isInternal_of_halts hv (after?_of_wentOn? hwent).1 (by omega) hhalts trivial
        · cases he
          obtain ⟨reason, hreason⟩ := hmonitor.executed _ _ _ (congrArg Prod.snd hexec)
          cases hreason

end Worker

/-- What the caller has come to after these events, while the worker is where it is. -/
def Hears (job : Job σ) (events : List Event) (worker : Worker σ) : Caller → Prop
  | .waiting => .received ∉ events ∧ .expired ∉ events ∧ .raised ∉ events
  | .expired => .received ∉ events ∧ .expired ∈ events ∧ .raised ∉ events
  | .returned r =>
    (.received ∈ events ∧ .expired ∉ events ∧ ∃ fuel, (job.run never fuel).result = some r) ∨
      (.received ∉ events ∧ .expired ∈ events ∧ r = .error .cancelled) ∨
      ∃ w cause, worker = .gone w (.error (.crash cause))

/-- What holds of the exchange after these events. -/
structure Sound (job : Job σ) (events : List Event) (x : Exchange σ) : Prop where
  worker : job.Stands events x.worker
  flag : x.flag = decide (.raised ∈ events)
  message : ∀ r, x.message = some r → ∃ w, x.worker = .gone w r
  silence : x.caller = .waiting → x.message = none → ∀ w r, x.worker = .gone w r →
    ∃ cause, r = .error (.crash cause)
  caller : job.Hears events x.worker x.caller

section Parties

variable {job : Job σ} {events : List Event} {x y : Exchange σ} {e : Event}

theorem isGone_begun : job.begun.isGone = false := by
  unfold begun
  split
  · split
    · rfl
    · rfl
  · rfl

theorem isGone_checked (flag : Bool) (steps : Nat) (s : State) (w : σ) :
    (job.checked flag steps s w).isGone = false := by
  unfold checked
  split
  · rfl
  · rfl

theorem isGone_executed (steps : Nat) (s : State) (w : σ) :
    (job.executed steps s w).isGone = false := by
  unfold executed
  split
  · rfl
  · rfl

/-- The caller does not notice what the worker does. -/
theorem Hears.later {worker worker' : Worker σ} {caller : Caller}
    (h : job.Hears events worker caller) (hgone : worker.isGone = false)
    (he : e ≠ .received ∧ e ≠ .expired ∧ e ≠ .raised) :
    job.Hears (events ++ [e]) worker' caller := by
  obtain ⟨hreceived, hexpired, hraised⟩ := he
  cases caller with
  | waiting | expired =>
      simpa [Hears, hreceived.symm, hexpired.symm, hraised.symm] using h
  | returned r =>
      rcases h with h | h | ⟨w, cause, hdead⟩
      · exact .inl (by simpa [hreceived.symm, hexpired.symm] using h)
      · exact .inr (.inl (by simpa [hreceived.symm, hexpired.symm] using h))
      · rw [hdead] at hgone
        cases hgone

/-- A worker that goes on without sending keeps all that holds of the exchange. -/
theorem Sound.work (h : job.Sound events x) (hgone : x.worker.isGone = false)
    (he : e ≠ .received ∧ e ≠ .expired ∧ e ≠ .raised) {worker : Worker σ}
    (hworker : job.Stands (events ++ [e]) worker) (hgone' : worker.isGone = false) :
    job.Sound (events ++ [e]) { x with worker := worker } where
  worker := hworker
  flag := by
    rw [h.flag]
    simp [he.2.2.symm]
  message r hr := by
    obtain ⟨w, hw⟩ := h.message r hr
    rw [hw] at hgone
    cases hgone
  silence _ _ w r hw := by
    rw [show worker = .gone w r from hw] at hgone'
    cases hgone'
  caller := h.caller.later hgone he

theorem Sound.sent (h : job.Sound events x) {w : σ} {r : Except Error Report}
    (hw : x.worker = .answered w r) :
    job.Sound (events ++ [.sent]) { x with worker := .gone w r, message := delivery r } where
  worker := by
    have hstands := h.worker
    rw [hw] at hstands
    exact Settles.later hstands (by decide) (by decide)
  flag := by
    rw [h.flag]
    simp
  message r' hr' := by
    obtain ⟨rfl, -⟩ := delivery_eq_some_iff.mp hr'
    exact ⟨w, rfl⟩
  silence _ hnone w' r' hgone := by
    cases hgone
    exact delivery_eq_none_iff.mp hnone
  caller := h.caller.later (by rw [hw]; rfl) (by decide)

/-- A message that is received while the flag is not raised is the job's own answer. -/
theorem Sound.received (h : job.Sound events x) (hwaiting : x.caller = .waiting)
    {r : Except Error Report} (hr : x.message = some r) :
    job.Sound (events ++ [.received]) { x with caller := .returned r, message := none } where
  worker := h.worker.later (by decide) (by decide)
  flag := by
    rw [h.flag]
    simp
  message _ hnone := by cases hnone
  silence hreturned := by cases hreturned
  caller := by
    have hcaller := h.caller
    rw [hwaiting] at hcaller
    obtain ⟨w, hw⟩ := h.message r hr
    have hstands := h.worker
    rw [hw] at hstands
    rcases hstands.result with ⟨⟨fuel, hrun⟩, -⟩ | ⟨-, hraised, -⟩
    · exact .inl ⟨by simp, by simpa using hcaller.2.1, fuel, by rw [hrun]⟩
    · exact absurd hraised hcaller.2.2

theorem Sound.expired (h : job.Sound events x) (hwaiting : x.caller = .waiting) :
    job.Sound (events ++ [.expired]) { x with caller := .expired } where
  worker := h.worker.later (by decide) (by decide)
  flag := by
    rw [h.flag]
    simp
  message := h.message
  silence hexpired := by cases hexpired
  caller := by
    have hcaller := h.caller
    rw [hwaiting] at hcaller
    exact ⟨by simpa using hcaller.1, by simp, by simpa using hcaller.2.2⟩

theorem Sound.raised (h : job.Sound events x) (hexpired : x.caller = .expired) :
    job.Sound (events ++ [.raised])
      { x with caller := .returned (.error .cancelled), flag := true } where
  worker := h.worker.later (by decide) (by decide)
  flag := by simp
  message := h.message
  silence hreturned := by cases hreturned
  caller := by
    have hcaller := h.caller
    rw [hexpired] at hcaller
    exact .inr (.inl ⟨by simpa using hcaller.1, by simpa using hcaller.2.1, rfl⟩)

theorem Sound.hungUp (h : job.Sound events x) (hwaiting : x.caller = .waiting)
    (hnone : x.message = none) {w : σ} {r : Except Error Report} (hw : x.worker = .gone w r) :
    job.Sound (events ++ [.hungUp]) { x with caller := .returned (.error .cancelled) } where
  worker := h.worker.later (by decide) (by decide)
  flag := by
    rw [h.flag]
    simp
  message := h.message
  silence hreturned := by cases hreturned
  caller := by
    obtain ⟨cause, rfl⟩ := h.silence hwaiting hnone w r hw
    exact .inr (.inr ⟨w, cause, hw⟩)

theorem sound_of_moves (hmonitor : job.monitor.FailsInTable) (h : job.Sound events x)
    (hmove : job.Moves x e y) : job.Sound (events ++ [e]) y := by
  have hstands := h.worker
  cases hmove with
  | started hw =>
      rw [hw] at hstands
      exact h.work (by rw [hw]; rfl) (by decide)
        (stands_begun hmonitor hstands) isGone_begun
  | checked hw hc =>
      rw [hw] at hstands
      refine h.work (by rw [hw]; rfl) (by decide) ?_
        (isGone_checked _ _ _ _)
      rw [h.flag]
      exact stands_checked hstands hc
  | executed hw =>
      rw [hw] at hstands
      exact h.work (by rw [hw]; rfl) (by decide)
        (stands_executed hmonitor hstands) (isGone_executed _ _ _)
  | finished hw hout =>
      rw [hw] at hstands
      exact h.work (by rw [hw]; rfl) (by decide)
        (stands_finished hstands hout) rfl
  | sent hw => exact h.sent hw
  | received hwaiting hr => exact h.received hwaiting hr
  | expired hwaiting => exact h.expired hwaiting
  | raised hexpired => exact h.raised hexpired
  | hungUp hwaiting hnone hw => exact h.hungUp hwaiting hnone hw

theorem sound_of_leads (hmonitor : job.monitor.FailsInTable) (h : job.Leads events x) :
    job.Sound events x := by
  induction h with
  | start =>
      refine ⟨⟨rfl, rfl⟩, by simp, ?_, ?_, by simp [Hears]⟩
      · intro r hr
        cases hr
      · intro _ _ w r hw
        cases hw
  | next _ hmove ih => exact sound_of_moves hmonitor ih hmove

end Parties
end Job
end Brainfuck
