import Brainfuck.Proofs.Exchange

/-!
Interleavings of a worker and its caller. After the raise the worker executes at most the one
instruction whose check it has passed, and then finds the flag. There is always a next event
until both parties are done, and only boundedly many are left once the flag is raised or if the
job ends by itself. The evaluation of the front ends, which waits for so many instructions, is
one of these interleavings.

Main statement: cancellation never gives a wrong answer.
-/

namespace Brainfuck

variable {σ : Type}

/-- How many instructions the worker still executes once the flag is raised. -/
def Worker.due : Worker σ → Nat
  | .cleared _ _ _ => 1
  | .fresh | .looking _ _ _ | .answered _ _ | .gone _ _ => 0

/-- How many events of the worker are left at most once the flag is raised. -/
def Worker.left : Worker σ → Nat
  | .fresh | .cleared _ _ _ => 3
  | .looking _ _ _ => 2
  | .answered _ _ => 1
  | .gone _ _ => 0

/-- How many events of the worker there were at most, among them so many instructions. -/
def Worker.spent (instructions : Nat) : Worker σ → Nat
  | .fresh => 0
  | .looking _ _ _ => 2 * instructions + 1
  | .cleared _ _ _ | .answered _ _ => 2 * instructions + 2
  | .gone _ _ => 2 * instructions + 3

def Caller.spent : Caller → Nat
  | .waiting => 0
  | .expired => 1
  | .returned _ => 2

/-- The caller waits, and nothing has been sent. -/
def Exchange.running (worker : Worker σ) : Exchange σ :=
  ⟨worker, false, none, .waiting⟩

namespace Job

variable {job : Job σ} {events : List Event} {x y : Exchange σ} {e : Event}

theorem begun_cases (job : Job σ) :
    (∃ w, job.begun = .looking 0 job.initial w) ∨ ∃ w r, job.begun = .answered w r := by
  unfold begun
  split
  · split
    · exact .inr ⟨_, _, rfl⟩
    · exact .inl ⟨_, rfl⟩
  · exact .inr ⟨_, _, rfl⟩

theorem executed_cases (job : Job σ) (steps : Nat) (s : State) (w : σ) :
    (∃ t u, job.executed steps s w = .looking (steps + 1) t u) ∨
      ∃ u r, job.executed steps s w = .answered u r := by
  unfold executed
  split
  · exact .inr ⟨_, _, rfl⟩
  · exact .inl ⟨_, _, rfl⟩

theorem checked_cases (job : Job σ) (flag : Bool) (steps : Nat) (s : State) (w : σ) :
    (flag = false ∧ job.checked flag steps s w = .cleared steps s w) ∨
      ∃ r, job.checked flag steps s w = .answered w r := by
  unfold checked
  cases hstop : (job.control fun _ => flag).objection? steps with
  | some e => exact .inr ⟨_, rfl⟩
  | none =>
      refine .inl ⟨?_, rfl⟩
      cases flag with
      | false => rfl
      | true => simp [control, Control.objection?] at hstop

/-- Once the flag is raised and the caller has answered, every event is one of those that are
left to the worker. -/
theorem Moves.after_raise (h : job.Moves x e y) (hflag : x.flag = true) {r : Except Error Report}
    (hreturned : x.caller = .returned r) :
    y.worker.due + [e].count .executed ≤ x.worker.due ∧ y.worker.left + 1 ≤ x.worker.left := by
  cases h with
  | started hw =>
      rw [hw]
      rcases begun_cases job with ⟨w, hbegun⟩ | ⟨w, r, hbegun⟩
      all_goals simp [hbegun, Worker.due, Worker.left]
  | @checked steps s w c hw hc =>
      rw [hw]
      rcases checked_cases job x.flag steps s w with ⟨hlow, -⟩ | ⟨r, hchecked⟩
      · rw [hflag] at hlow
        cases hlow
      · simp [hchecked, Worker.due, Worker.left]
  | @executed steps s w hw =>
      rw [hw]
      rcases executed_cases job steps s w with ⟨t, u, hexecuted⟩ | ⟨u, r, hexecuted⟩
      all_goals simp [hexecuted, Worker.due, Worker.left]
  | finished hw _ | sent hw =>
      rw [hw]
      simp [Worker.due, Worker.left]
  | received hcaller _ | expired hcaller | raised hcaller | hungUp hcaller _ _ =>
      rw [hreturned] at hcaller
      cases hcaller

/-- The caller has answered by the time the flag is raised. -/
theorem Sound.returned_of_raised (h : job.Sound events x) (hraised : .raised ∈ events) :
    ∃ r, x.caller = .returned r := by
  have hcaller := h.caller
  cases hc : x.caller with
  | returned r => exact ⟨r, rfl⟩
  | waiting =>
      rw [hc] at hcaller
      exact absurd hraised hcaller.2.2
  | expired =>
      rw [hc] at hcaller
      exact absurd hraised hcaller.2.2

theorem sinceRaise_of_leads (hmonitor : job.monitor.FailsInTable) (h : job.Leads events x)
    (hraised : .raised ∈ events) :
    (sinceRaise events).count .executed + x.worker.due ≤ 1 ∧
      (sinceRaise events).length + x.worker.left ≤ 4 := by
  induction h with
  | start => cases hraised
  | @next events x y e hleads hmove ih =>
      have hsound := sound_of_leads hmonitor hleads
      by_cases hearlier : .raised ∈ events
      · obtain ⟨hcount, hlength⟩ := ih hearlier
        obtain ⟨r, hreturned⟩ := hsound.returned_of_raised hearlier
        have hflag : x.flag = true := by rw [hsound.flag, decide_eq_true hearlier]
        obtain ⟨hdue, hleft⟩ := hmove.after_raise hflag hreturned
        rw [sinceRaise_concat hearlier, List.count_append, List.length_append,
          List.length_singleton]
        omega
      · have he : e = .raised := by
          rcases List.mem_append.mp hraised with hmem | hmem
          · exact absurd hmem hearlier
          · exact (List.mem_singleton.mp hmem).symm
        subst he
        rw [sinceRaise_raised hearlier]
        cases y.worker <;> simp [Worker.due, Worker.left]

theorem Moves.spent_le (h : job.Moves x e y) (n : Nat) :
    x.worker.spent n + x.caller.spent + 1 ≤
      y.worker.spent (n + [e].count .executed) + y.caller.spent := by
  cases h with
  | started hw =>
      rw [hw]
      rcases begun_cases job with ⟨w, hbegun⟩ | ⟨w, r, hbegun⟩
      all_goals
        simp only [hbegun, Worker.spent]
        omega
  | @checked steps s w c hw hc =>
      rw [hw]
      rcases checked_cases job x.flag steps s w with ⟨-, hchecked⟩ | ⟨r, hchecked⟩
      all_goals
        simp only [hchecked, Worker.spent]
        omega
  | @executed steps s w hw =>
      rw [hw]
      have hone : [Event.executed].count .executed = 1 := rfl
      rcases executed_cases job steps s w with ⟨t, u, hexecuted⟩ | ⟨u, r, hexecuted⟩
      all_goals
        simp only [hexecuted, Worker.spent, hone]
        omega
  | finished hw _ | sent hw =>
      rw [hw]
      simp only [Worker.spent]
      omega
  | received hcaller _ | expired hcaller | raised hcaller | hungUp hcaller _ _ =>
      rw [hcaller]
      simp [Caller.spent]

theorem length_le_spent (h : job.Leads events x) :
    events.length ≤ x.worker.spent (events.count .executed) + x.caller.spent := by
  induction h with
  | start => exact Nat.le_refl 0
  | @next events x y e _ hmove ih =>
      have hspent := hmove.spent_le (events.count .executed)
      rw [List.length_append, List.length_singleton, List.count_append]
      omega

theorem spent_le (worker : Worker σ) (caller : Caller) (n : Nat) :
    worker.spent n + caller.spent ≤ 2 * n + 5 := by
  have hworker : worker.spent n ≤ 2 * n + 3 := by
    cases worker <;> simp [Worker.spent]
  have hcaller : caller.spent ≤ 2 := by
    cases caller <;> simp [Caller.spent]
  omega

/-- Neither party ever waits in vain. -/
theorem exists_moves (job : Job σ) (x : Exchange σ) :
    (∃ e y, job.Moves x e y) ∨
      ∃ w r r', x.worker = .gone w r ∧ x.caller = .returned r' := by
  cases hw : x.worker with
  | fresh => exact .inl ⟨_, _, .started hw⟩
  | looking steps s w =>
      cases hc : job.program[s.ip]? with
      | none => exact .inl ⟨_, _, .finished hw hc⟩
      | some c => exact .inl ⟨_, _, .checked hw hc⟩
  | cleared steps s w => exact .inl ⟨_, _, .executed hw⟩
  | answered w r => exact .inl ⟨_, _, .sent hw⟩
  | gone w r =>
      cases hcaller : x.caller with
      | waiting => exact .inl ⟨_, _, .expired hcaller⟩
      | expired => exact .inl ⟨_, _, .raised hcaller⟩
      | returned r' => exact .inr ⟨w, r, r', rfl, rfl⟩

/-- The worker executes no more instructions than the job with the flag never raised. -/
theorem Stands.executed_le {worker : Worker σ} (h : job.Stands events worker) {fuel : Nat}
    {r : Except Error Report} (hrun : (job.run never fuel).result = some r) :
    events.count .executed ≤ fuel := by
  have hlt : ∀ k t u, job.before? k = some (t, u) → k < fuel := by
    intro k t u hk
    generalize hend : job.run never fuel = ending at hrun
    obtain ⟨v, result⟩ := ending
    cases hrun
    exact lt_of_run hend hk
  cases worker with
  | fresh =>
      rw [h.2]
      exact Nat.zero_le fuel
  | looking steps s w =>
      rw [h.2.2]
      exact Nat.le_of_lt (hlt steps s w h.1)
  | cleared steps s w =>
      rw [h.2.2.2.2]
      exact Nat.le_of_lt (hlt steps s w h.1)
  | answered w r | gone w r =>
      by_contra hmore
      obtain ⟨t, u, hbefore⟩ := Settles.reached h fuel (Nat.lt_of_not_le hmore)
      exact Nat.lt_irrefl fuel (hlt fuel t u hbefore)

theorem Stands.settles {worker : Worker σ} (h : job.Stands events worker)
    {r : Except Error Report} (hr : worker.answer? = some r) : ∃ w, job.Settles events w r := by
  cases worker with
  | fresh | looking _ _ _ | cleared _ _ _ => cases hr
  | answered w r' | gone w r' =>
      cases hr
      exact ⟨w, h⟩

section Answers

variable {w : σ} {r : Except Error Report} (h : job.Settles events w r)
include h

theorem Settles.cancelled (hchecks : job.Checks (unseenChecks events)) :
    r = .error .cancelled := by
  rcases h.result with ⟨-, hall⟩ | ⟨hr, -, -⟩
  · exact absurd (hall _ hchecks) (Nat.lt_irrefl _)
  · exact hr

theorem Settles.uncancelled (hunseen : ¬ (.raised ∈ events ∧ job.Checks (unseenChecks events))) :
    ∃ fuel, (job.run never fuel).result = some r := by
  rcases h.result with ⟨⟨fuel, hrun⟩, -⟩ | ⟨-, hraised, hchecks⟩
  · exact ⟨fuel, by rw [hrun]⟩
  · exact absurd ⟨hraised, hchecks⟩ hunseen

/-- The answer is that of the job under the schedule of what its checks see. -/
theorem Settles.run_seesFlag : ∃ fuel, (job.run (seesFlag events) fuel).result = some r := by
  have hsees : ∀ n, seesFlag events n = true ↔ .raised ∈ events ∧ unseenChecks events ≤ n := by
    intro n
    simp [seesFlag]
  rcases h.result with ⟨⟨fuel, hrun⟩, hall⟩ | ⟨rfl, hraised, hchecks⟩
  · refine ⟨fuel, ?_⟩
    rw [run_of_unseen, hrun]
    intro n hn hcheck
    have hlt := hall n hcheck
    have hle := ((hsees n).mp hn).2
    omega
  · refine ⟨unseenChecks events + 1, run_of_seen ?_ ?_ hchecks (Nat.lt_succ_self _)⟩
    · exact (hsees _).mpr ⟨hraised, Nat.le_refl _⟩
    · intro k hk
      rw [Bool.eq_false_iff]
      intro hseen
      have hle := ((hsees k).mp hseen).2
      omega

theorem Settles.unmatched (hv : balanced job.source.toList = false) :
    ∃ blamed, unmatched? job.source.toList = some blamed ∧ r = .error (.unmatched blamed) := by
  obtain ⟨blamed, hblamed⟩ := exists_unmatched? hv
  have hnone : ¬ (.raised ∈ events ∧ job.Checks (unseenChecks events)) := by
    rintro ⟨-, t, u, c, hbefore, -⟩
    rw [(before?_eq_some_iff.mp hbefore).1] at hv
    cases hv
  obtain ⟨fuel, hrun⟩ := h.uncancelled hnone
  rw [run, Machine.execute_of_unbalanced hv, Error.ofUnbalanced, hblamed] at hrun
  cases hrun
  exact ⟨blamed, hblamed, rfl⟩

theorem Settles.empty (hsource : job.source = "")
    (hstarted : (job.monitor.started job.watched).2 = none) : r = .ok ⟨"", [], 0⟩ := by
  have hout : ∀ i : Nat, job.program[i]? = none := by
    intro i
    rw [program, hsource]
    rfl
  have hnone : ¬ (.raised ∈ events ∧ job.Checks (unseenChecks events)) := by
    rintro ⟨-, t, u, c, -, hc⟩
    rw [hout] at hc
    cases hc
  obtain ⟨fuel, hrun⟩ := h.uncancelled hnone
  have hv : balanced job.source.toList = true := by
    rw [hsource]
    rfl
  have hpair : job.monitor.started job.watched = ((job.monitor.started job.watched).1, none) :=
    Prod.ext rfl hstarted
  rw [run_of_balanced hv hpair] at hrun
  cases fuel with
  | zero => cases hrun
  | succ fuel =>
      rw [runFrom, turn_of_halts (.finished (hout _))] at hrun
      cases hrun
      rfl

end Answers

section Waiting

variable {n : Nat} {s : State} {w u : σ} {r : Except Error Report}

theorem leads_begun (job : Job σ) : job.Leads [.started] (.running job.begun) :=
  Leads.start.next (.started rfl)

theorem leads_checked (h : job.Leads events (.running (.looking n s w))) {c : Char}
    (hc : job.program[s.ip]? = some c) :
    job.Leads (events ++ [.checked]) (.running (job.checked false n s w)) :=
  h.next (.checked rfl hc)

theorem leads_executed (h : job.Leads events (.running (.cleared n s w))) :
    job.Leads (events ++ [.executed]) (.running (job.executed n s w)) :=
  h.next (.executed rfl)

/-- The worker comes to every turn of the job while the caller waits. -/
theorem leads_looking (h : job.before? n = some (s, w)) :
    ∃ events, job.Leads events (.running (.looking n s w)) ∧ events.count .executed = n := by
  induction n generalizing s w with
  | zero =>
      obtain ⟨hv, w', hstarted, hwent⟩ := before?_eq_some_iff.mp h
      cases hwent
      have hleads := leads_begun job
      rw [begun, if_pos hv, hstarted] at hleads
      exact ⟨_, hleads, rfl⟩
  | succ n ih =>
      obtain ⟨s', w', hbefore, hturn⟩ := before?_of_succ h
      obtain ⟨events, hleads, hcount⟩ := ih hbefore
      obtain ⟨hnext, hallowed⟩ := next?_of_went hturn
      obtain ⟨c, hc⟩ := exists_char_of_next? hnext
      have hchecked := leads_checked hleads hc
      rw [checked_unraised, hallowed] at hchecked
      have hexecuted := leads_executed hchecked
      rw [executed, turn_free_of_allowed hallowed, hturn] at hexecuted
      refine ⟨_, hexecuted, ?_⟩
      simp [hcount]

/-- And it comes to the job's answer. -/
theorem leads_answered (h : job.before? n = some (s, w))
    (hturn : turn job.program (job.control never) job.monitor n s w = .ended u r) :
    ∃ events, job.Leads events (.running (.answered u r)) ∧ events.count .executed ≤ n + 1 := by
  obtain ⟨events, hleads, hcount⟩ := leads_looking h
  cases hc : job.program[s.ip]? with
  | none =>
      rw [turn_of_halts (.finished hc)] at hturn
      cases hturn
      refine ⟨_, hleads.next (.finished rfl hc), ?_⟩
      simp [hcount]
  | some c =>
      have hchecked := leads_checked hleads hc
      rw [checked_unraised] at hchecked
      cases hallowed : (job.control never).objection? n with
      | none =>
          rw [hallowed] at hchecked
          have hexecuted := leads_executed hchecked
          rw [executed, turn_free_of_allowed hallowed, hturn] at hexecuted
          refine ⟨_, hexecuted, ?_⟩
          simp [hcount]
      | some e =>
          rw [turn_of_halts (.stopped hc hallowed)] at hturn
          cases hturn
          rw [hallowed] at hchecked
          refine ⟨_, hchecked, ?_⟩
          simp [hcount]

theorem run_never_cases (job : Job σ) (fuel : Nat) :
    (∃ u r, job.run never fuel = ⟨u, some r⟩ ∧ (job.begun = .answered u r ∨
      ∃ n < fuel, ∃ s w, job.before? n = some (s, w) ∧
        turn job.program (job.control never) job.monitor n s w = .ended u r)) ∨
      (job.run never fuel).result = none ∧ ∃ s w, job.before? fuel = some (s, w) := by
  cases hv : balanced job.source.toList with
  | false =>
      refine .inl ⟨_, _, Machine.execute_of_unbalanced hv, .inl ?_⟩
      rw [begun, if_neg (by simp [hv])]
  | true =>
      cases hstarted : job.monitor.started job.watched with
      | mk w objection =>
          cases objection with
          | some e =>
              refine .inl ⟨w, .error e, ?_, .inl ?_⟩
              · rw [run, Machine.execute, if_pos hv, hstarted]
              · rw [begun, if_pos hv, hstarted]
          | none =>
              rw [run_of_balanced hv hstarted]
              generalize hrun : runFrom job.program _ job.monitor fuel 0 job.initial w = ending
              obtain ⟨u, _ | r⟩ := ending
              · obtain ⟨t, v, hwent⟩ := wentOn?_of_unfinished (congrArg Ending.result hrun)
                exact .inr ⟨rfl, t, v, before?_eq_some_iff.mpr ⟨hv, w, hstarted, hwent⟩⟩
              · obtain ⟨n, t, v, hn, hwent, hturn⟩ := runFrom_eq_iff.mp hrun
                rw [Nat.zero_add] at hturn
                exact .inl ⟨u, r, rfl, .inr ⟨n, hn, t, v,
                  before?_eq_some_iff.mpr ⟨hv, w, hstarted, hwent⟩, hturn⟩⟩

theorem leads_received (h : job.Leads events (.running (.answered u r)))
    (hr : ∀ cause, r ≠ .error (.crash cause)) :
    job.Leads (events ++ [.sent] ++ [.received]) ⟨.gone u r, false, none, .returned r⟩ := by
  have hdelivery : delivery r = some r := delivery_eq_some_iff.mpr ⟨rfl, hr⟩
  have hsent : job.Moves (.running (.answered u r)) .sent ⟨.gone u r, false, delivery r, .waiting⟩ :=
    .sent rfl
  exact (h.next hsent).next (.received rfl hdelivery)

theorem leads_raised {worker : Worker σ} (h : job.Leads events (.running worker)) :
    job.Leads (events ++ [.expired] ++ [.raised])
      ⟨worker, true, none, .returned (.error .cancelled)⟩ :=
  (h.next (.expired rfl)).next (.raised rfl)

/-- A caller whose patience lasts for so many instructions. -/
theorem exists_leads_returned (hmonitor : job.monitor.FailsInTable) {patience : Nat}
    (hpatience : patience ≤ wordMax) :
    ∃ events x, job.Leads events x ∧ events.count .executed ≤ patience ∧
      x.caller =
        .returned (((job.run never patience).result.bind delivery).getD (.error .cancelled)) := by
  rcases run_never_cases job patience with ⟨u, r, hrun, hends⟩ | ⟨hnone, s, w, hbefore⟩
  · obtain ⟨events, hleads, hcount⟩ : ∃ events, job.Leads events (.running (.answered u r)) ∧
        events.count .executed ≤ patience := by
      rcases hends with hbegun | ⟨n, hn, s, w, hbefore, hturn⟩
      · have hleads := leads_begun job
        rw [hbegun] at hleads
        exact ⟨_, hleads, Nat.zero_le _⟩
      · obtain ⟨events, hleads, hcount⟩ := leads_answered hbefore hturn
        exact ⟨events, hleads, by omega⟩
    have hr := run_never_ne_crash hmonitor hpatience (congrArg Ending.result hrun)
    refine ⟨_, _, leads_received hleads hr, by simpa using hcount, ?_⟩
    rw [hrun, Option.bind_some, delivery_eq_some_iff.mpr ⟨rfl, hr⟩]
    rfl
  · obtain ⟨events, hleads, hcount⟩ := leads_looking hbefore
    refine ⟨_, _, leads_raised hleads, by simp [hcount], by rw [hnone]; rfl⟩

end Waiting

/-- The job that the front ends give to a worker. -/
def ofEvaluation (settings : Settings) (watching : Watching) (source input : String) :
    Job (Sink × Array Log.Entry) where
  settings := settings
  monitor := (Monitor.table.onlyIf watching.table).both (Log.jumps.onlyIf watching.jumps)
  watched := (.empty none, #[])
  source := source
  input := input

end Job

theorem Monitor.FailsInTable.onlyIf {monitor : Monitor σ} (h : monitor.FailsInTable) (on : Bool) :
    (monitor.onlyIf on).FailsInTable := by
  cases on with
  | true => exact h
  | false =>
      constructor
      · intro w e he
        cases he
      · intro w row e he
        cases he

theorem Monitor.FailsInTable.both {τ : Type} {m : Monitor σ} {n : Monitor τ}
    (hm : m.FailsInTable) (hn : n.FailsInTable) : (m.both n).FailsInTable where
  started := by
    rintro ⟨s, t⟩ e he
    simp only [Monitor.both] at he
    split at he
    · next hstarted =>
        cases he
        exact hm.started _ _ (congrArg Prod.snd hstarted)
    · exact hn.started _ _ he
  executed := by
    rintro ⟨s, t⟩ row e he
    simp only [Monitor.both] at he
    split at he
    · next hexecuted =>
        cases he
        exact hm.executed _ _ _ (congrArg Prod.snd hexecuted)
    · exact hn.executed _ _ _ he

theorem Log.failsInTable_jumps : Log.jumps.FailsInTable where
  started _ _ h := by cases h
  executed w row e h := by
    simp only [Log.jumps] at h
    split at h
    · cases h
    · cases h

theorem failsInTable_ofEvaluation (settings : Settings) (watching : Watching)
    (source input : String) :
    (Job.ofEvaluation settings watching source input).monitor.FailsInTable :=
  (Monitor.failsInTable_table.onlyIf _).both (Log.failsInTable_jumps.onlyIf _)

section Patience

variable {settings : Settings} {patience : Nat} {source input : String} {r : Except Error Report}

/-- A run that ends within the caller's patience gives the evaluation its result. -/
theorem result_evaluate_of_run (hpatience : patience ≤ wordMax)
    (h : settings.machine.run settings.control patience source input = some r)
    (watching : Watching) :
    (evaluate settings watching patience source input).result = r ∧ r ≠ .error .cancelled := by
  have hjob : ((Job.mk settings .silent () source input).run never patience).result = some r := h
  have hcancelled := Job.run_never_ne_cancelled Monitor.failsInTable_silent hjob
  have hcrash := Job.run_never_ne_crash Monitor.failsInTable_silent hpatience hjob
  exact ⟨(evaluate_eq_iff hcrash hcancelled).mpr h, hcancelled⟩

theorem evaluate_eq_cancelled_iff (hpatience : patience ≤ wordMax) (watching : Watching) :
    (evaluate settings watching patience source input).result = .error .cancelled ↔
      settings.machine.run settings.control patience source input = none := by
  cases h : settings.machine.run settings.control patience source input with
  | none => simp [result_evaluate, h]
  | some r =>
      obtain ⟨hresult, hcancelled⟩ := result_evaluate_of_run hpatience h watching
      simp [hresult, hcancelled]

end Patience

/-- Cancellation at any moment gives no wrong or partial answer. Under every schedule of the
flag, a job that comes to a check which sees the flag is cancelled there, even if its budget is
used up as well, and any other ends as if the flag were never raised. In every interleaving of a
worker and its caller, of no more instructions than the word counts, the worker answers so; it
executes at most one instruction after the raise; the caller returns what the job gives with the
flag never raised, received in time, or that its time was up; and a source that is refused or
empty is answered as ever. Neither party waits in vain: as long as one of them is not done there
is a next event, and there are few left once the flag is raised or if the job ends by itself. The
evaluation that waits for so many turns has the job's own result if the job ends within them, and is
cancelled only otherwise; and it is the caller's answer in such an interleaving. -/
theorem exchange_answers (job : Job σ) (hmonitor : job.monitor.FailsInTable) :
    (∀ (cancelled : Nat → Bool) (n : Nat), cancelled n = true → (∀ k < n, cancelled k = false) →
      (job.Checks n → ∀ fuel > n, (job.run cancelled fuel).result = some (.error .cancelled)) ∧
        (¬ job.Checks n → ∀ fuel, job.run cancelled fuel = job.run never fuel)) ∧
    (∀ events x, job.Leads events x → events.count .executed ≤ wordMax →
      (∀ r, x.worker.answer? = some r →
        (.raised ∈ events → job.Checks (unseenChecks events) → r = .error .cancelled) ∧
        (¬ (.raised ∈ events ∧ job.Checks (unseenChecks events)) →
          ∃ fuel, (job.run never fuel).result = some r) ∧
        (∃ fuel, (job.run (seesFlag events) fuel).result = some r) ∧
        (balanced job.source.toList = false → ∃ blamed,
          unmatched? job.source.toList = some blamed ∧ r = .error (.unmatched blamed)) ∧
        (job.source = "" → (job.monitor.started job.watched).2 = none →
          r = .ok ⟨"", [], 0⟩)) ∧
      (.raised ∈ events →
        (sinceRaise events).count .executed ≤ 1 ∧ (sinceRaise events).length ≤ 4) ∧
      (∀ r, x.caller = .returned r →
        (.received ∈ events ∧ .expired ∉ events ∧ r ≠ .error .cancelled ∧
          ∃ fuel, (job.run never fuel).result = some r) ∨
        (.received ∉ events ∧ .expired ∈ events ∧ r = .error .cancelled)) ∧
      ((∃ e y, job.Moves x e y) ∨
        ∃ w r r', x.worker = .gone w r ∧ x.caller = .returned r') ∧
      ∀ fuel r, (job.run never fuel).result = some r → events.length ≤ 2 * fuel + 5) ∧
    ∀ watching patience, patience ≤ wordMax →
      (∀ r, job.settings.machine.run (job.control never) patience job.source job.input = some r →
        (evaluate job.settings watching patience job.source job.input).result = r) ∧
      ((evaluate job.settings watching patience job.source job.input).result =
          .error .cancelled ↔
        job.settings.machine.run (job.control never) patience job.source job.input = none) ∧
      ∃ events x, (Job.ofEvaluation job.settings watching job.source job.input).Leads events x ∧
        events.count .executed ≤ wordMax ∧
        x.caller =
          .returned (evaluate job.settings watching patience job.source job.input).result := by
  refine ⟨?_, ?_, ?_⟩
  · intro cancelled n hseen hfirst
    refine ⟨fun hchecks fuel hfuel => Job.run_of_seen hseen hfirst hchecks hfuel, ?_⟩
    intro hnone fuel
    refine Job.run_of_unseen ?_ fuel
    intro k hk hchecks
    have hle : n ≤ k := by
      by_contra hlt
      rw [hfirst k (Nat.lt_of_not_le hlt)] at hk
      cases hk
    exact hnone (hchecks.of_le hle)
  · intro events x hleads hword
    have hsound := Job.sound_of_leads hmonitor hleads
    refine ⟨?_, ?_, ?_, Job.exists_moves job x, ?_⟩
    · intro r hr
      obtain ⟨w, hsettles⟩ := hsound.worker.settles hr
      exact ⟨fun _ => hsettles.cancelled, hsettles.uncancelled, hsettles.run_seesFlag,
        hsettles.unmatched, hsettles.empty⟩
    · intro hraised
      obtain ⟨hcount, hlength⟩ := Job.sinceRaise_of_leads hmonitor hleads hraised
      exact ⟨by omega, by omega⟩
    · intro r hr
      have hcaller := hsound.caller
      rw [hr] at hcaller
      rcases hcaller with ⟨hreceived, hexpired, fuel, hrun⟩ | hexpired | ⟨w, cause, hdead⟩
      · exact .inl ⟨hreceived, hexpired, Job.run_never_ne_cancelled hmonitor hrun, fuel, hrun⟩
      · exact .inr hexpired
      · -- A worker that died has executed more than the word counts.
        have hstands := hsound.worker
        rw [hdead] at hstands
        have hmore := Job.Settles.crash hstands cause rfl
        omega
    · intro fuel r hrun
      have hspent := Job.length_le_spent hleads
      have hbound := Job.spent_le x.worker x.caller (events.count .executed)
      have hcount := hsound.worker.executed_le hrun
      omega
  · intro watching patience hpatience
    obtain ⟨events, x, hleads, hcount, hcaller⟩ := Job.exists_leads_returned
      (failsInTable_ofEvaluation job.settings watching job.source job.input) hpatience
    exact ⟨fun r hrun => (result_evaluate_of_run hpatience hrun watching).1,
      evaluate_eq_cancelled_iff hpatience watching, events, x, hleads,
      Nat.le_trans hcount hpatience, hcaller⟩

/-- Three instructions and a budget for two. -/
def overBudget : Job Unit :=
  ⟨⟨0, 0, some 2, 0⟩, .silent, (), "+++", ""⟩

/-- The time is up after the second check: the second instruction is still executed, and the
third check finds the flag raised and the budget used up. -/
theorem exchange_answers_third_check :
    Monitor.silent.FailsInTable ∧ ∃ x : Exchange Unit,
      overBudget.Leads [.started, .checked, .executed, .checked, .expired, .raised, .executed,
        .checked] x ∧
      8 ≤ wordMax ∧ overBudget.Checks 2 ∧
      (overBudget.run never 3).result = some (.error (.stepLimit 2)) ∧
      x.worker.answer? = some (.error .cancelled) ∧
      x.caller = .returned (.error .cancelled) := by
  obtain ⟨x, hleads, r, hr, hcaller⟩ : ∃ x : Exchange Unit,
      overBudget.Leads [.started, .checked, .executed, .checked, .expired, .raised, .executed,
        .checked] x ∧ ∃ r, x.worker.answer? = some r ∧ x.caller = .returned (.error .cancelled) := by
    refine ⟨_, .next (.next (.next (.next (.next (.next (.next (.next .start (.started rfl))
      (.checked rfl rfl)) (.executed rfl)) (.checked rfl rfl)) (.expired rfl)) (.raised rfl))
      (.executed rfl)) (.checked rfl rfl), _, rfl, rfl⟩
  have hchecks : overBudget.Checks 2 := ⟨_, _, '+', rfl, rfl⟩
  obtain ⟨-, hall, -⟩ := exchange_answers overBudget Monitor.failsInTable_silent
  obtain ⟨hworker, -⟩ := hall _ x hleads (by decide)
  have hcancelled := (hworker r hr).1 (by decide) hchecks
  rw [hcancelled] at hr
  exact ⟨Monitor.failsInTable_silent, x, hleads, by decide, hchecks, rfl, hr, hcaller⟩

end Brainfuck
