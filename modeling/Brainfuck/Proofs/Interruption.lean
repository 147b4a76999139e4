import Brainfuck.Evaluation
import Brainfuck.Proofs.Safety

/-!
Jobs whose cancel flag is raised while they run. The flag is read at the checks, one before each
instruction, so all that a run knows of it is the schedule of what its checks see. The run keeps to
the one with the flag never raised until the first check that sees it, and there it ends.

Main statements: a run that comes to a check which sees the flag is cancelled, and any other ends
as if the flag were never raised.
-/

namespace Brainfuck

variable {σ : Type}

section Turns

variable {p : Program} {control control' : Control} {monitor : Monitor σ}

theorem turn_congr {steps : Nat} {s : State}
    (h : ∀ c, p[s.ip]? = some c → control'.objection? steps = control.objection? steps) (w : σ) :
    turn p control' monitor steps s w = turn p control monitor steps s w := by
  cases hc : p[s.ip]? with
  | none => simp only [turn, hc]
  | some c => simp only [turn, hc, h c hc]

theorem wentOn?_succ (n steps : Nat) (s : State) (w : σ) :
    wentOn? p control monitor (n + 1) steps s w =
      (wentOn? p control monitor n steps s w).bind fun (t, u) =>
        match turn p control monitor (steps + n) t u with
        | .ended _ _ => none
        | .went u next => some (next, u) := by
  induction n generalizing steps s w with
  | zero =>
      rw [wentOn?]
      cases hturn : turn p control monitor steps s w with
      | ended u r => simp [wentOn?, hturn]
      | went u next => simp [wentOn?, hturn]
  | succ n ih =>
      rw [wentOn?, wentOn?]
      cases turn p control monitor steps s w with
      | ended u r => rfl
      | went u next =>
          simp only
          rw [ih, Nat.add_right_comm, Nat.add_assoc steps n 1]

/-- Controls that say the same at every check the run comes to lead to the same ending. -/
theorem runFrom_congr (fuel : Nat) {steps : Nat} {s : State} {w : σ}
    (h : ∀ k t u c, wentOn? p control monitor k steps s w = some (t, u) → p[t.ip]? = some c →
      control'.objection? (steps + k) = control.objection? (steps + k)) :
    runFrom p control' monitor fuel steps s w = runFrom p control monitor fuel steps s w := by
  induction fuel generalizing steps s w with
  | zero => rfl
  | succ fuel ih =>
      have hturn : turn p control' monitor steps s w = turn p control monitor steps s w :=
        turn_congr (fun c hc => h 0 s w c rfl hc) w
      rw [runFrom, runFrom, hturn]
      cases hwent : turn p control monitor steps s w with
      | ended u r => rfl
      | went u next =>
          apply ih
          intro k t v c hk hc
          have hlater := h (k + 1) t v c (by rw [wentOn?, hwent]; exact hk) hc
          rwa [← Nat.add_assoc, Nat.add_right_comm] at hlater

theorem wentOn?_of_unfinished {fuel steps : Nat} {s : State} {w : σ}
    (h : (runFrom p control monitor fuel steps s w).result = none) :
    ∃ t u, wentOn? p control monitor fuel steps s w = some (t, u) := by
  induction fuel generalizing steps s w with
  | zero => exact ⟨s, w, rfl⟩
  | succ fuel ih =>
      rw [runFrom] at h
      cases hturn : turn p control monitor steps s w with
      | ended u r =>
          rw [hturn] at h
          cases h
      | went u next =>
          rw [hturn] at h
          obtain ⟨t, v, hwent⟩ := ih h
          exact ⟨t, v, by rw [wentOn?, hturn]; exact hwent⟩

end Turns

/-- A source to evaluate, its settings, and what watches it. -/
structure Job (σ : Type) where
  settings : Settings
  monitor : Monitor σ
  watched : σ
  source : String
  input : String

/-- The schedule of a flag that no check sees raised. -/
def never : Nat → Bool :=
  fun _ => false

namespace Job

def program (job : Job σ) : Program :=
  .ofString job.source

/-- The limits of the job under a schedule of its cancel flag. -/
def control (job : Job σ) (cancelled : Nat → Bool) : Control :=
  ⟨job.settings.maxSteps, cancelled⟩

def initial (job : Job σ) : State :=
  .initial job.settings.machine.tapeSize job.input.toList

def run (job : Job σ) (cancelled : Nat → Bool) (fuel : Nat) : Ending σ :=
  job.settings.machine.execute (job.control cancelled) job.monitor fuel job.source job.input
    job.watched

/-- The state, and what the monitor holds, after `n` turns with the flag never raised; none if
the job has ended by then. -/
def before? (job : Job σ) (n : Nat) : Option (State × σ) :=
  if balanced job.source.toList then
    match job.monitor.started job.watched with
    | (_, some _) => none
    | (watched, none) =>
      wentOn? job.program (job.control never) job.monitor n 0 job.initial watched
  else
    none

/-- The check before the instruction number `n`, from 0 on, is made if the flag is not raised
before. -/
def Checks (job : Job σ) (n : Nat) : Prop :=
  ∃ t w c, job.before? n = some (t, w) ∧ job.program[t.ip]? = some c

variable {job : Job σ} {n k : Nat} {s t : State} {w u : σ} {r : Except Error Report}
  {cancelled : Nat → Bool}

theorem before?_eq_some_iff :
    job.before? n = some (t, u) ↔
      balanced job.source.toList = true ∧ ∃ w, job.monitor.started job.watched = (w, none) ∧
        wentOn? job.program (job.control never) job.monitor n 0 job.initial w = some (t, u) := by
  rw [before?]
  cases balanced job.source.toList with
  | false => simp
  | true =>
      rcases job.monitor.started job.watched with ⟨w, _ | e⟩
      · simp
      · simp

theorem before?_succ_of_went (h : job.before? n = some (s, w))
    (hturn : turn job.program (job.control never) job.monitor n s w = .went u t) :
    job.before? (n + 1) = some (t, u) := by
  obtain ⟨hv, w', hstarted, hwent⟩ := before?_eq_some_iff.mp h
  refine before?_eq_some_iff.mpr ⟨hv, w', hstarted, ?_⟩
  rw [wentOn?_succ, hwent]
  simp only [Option.bind_some, Nat.zero_add, hturn]

theorem before?_succ_of_ended (h : job.before? n = some (s, w))
    (hturn : turn job.program (job.control never) job.monitor n s w = .ended u r) :
    job.before? (n + 1) = none := by
  rw [Option.eq_none_iff_forall_ne_some]
  rintro ⟨t, v⟩ hnext
  obtain ⟨hv, w', hstarted, hwent⟩ := before?_eq_some_iff.mp h
  obtain ⟨-, w'', hstarted', hwent'⟩ := before?_eq_some_iff.mp hnext
  rw [hstarted] at hstarted'
  cases hstarted'
  rw [wentOn?_succ, hwent] at hwent'
  simp only [Option.bind_some, Nat.zero_add, hturn] at hwent'
  cases hwent'

theorem before?_of_succ (h : job.before? (n + 1) = some (t, u)) :
    ∃ s w, job.before? n = some (s, w) ∧
      turn job.program (job.control never) job.monitor n s w = .went u t := by
  obtain ⟨hv, w', hstarted, hwent⟩ := before?_eq_some_iff.mp h
  rw [wentOn?_succ] at hwent
  obtain ⟨⟨s, w⟩, hs, hnext⟩ := Option.bind_eq_some_iff.mp hwent
  refine ⟨s, w, before?_eq_some_iff.mpr ⟨hv, w', hstarted, hs⟩, ?_⟩
  simp only [Nat.zero_add] at hnext
  cases hturn : turn job.program (job.control never) job.monitor n s w with
  | ended v r =>
      rw [hturn] at hnext
      cases hnext
  | went v next =>
      rw [hturn] at hnext
      cases hnext
      rfl

theorem before?_of_le (h : job.before? n = some (t, u)) (hk : k ≤ n) :
    ∃ s w, job.before? k = some (s, w) := by
  obtain ⟨d, rfl⟩ := Nat.exists_eq_add_of_le hk
  induction d generalizing t u with
  | zero => exact ⟨t, u, h⟩
  | succ d ih =>
      obtain ⟨s, w, hs, -⟩ := before?_of_succ h
      exact ih hs (Nat.le_add_right k d)

theorem Checks.of_le (h : job.Checks n) (hk : k ≤ n) : job.Checks k := by
  obtain ⟨t, u, c, hbefore, hc⟩ := h
  rcases Nat.eq_or_lt_of_le hk with rfl | hlt
  · exact ⟨t, u, c, hbefore, hc⟩
  · obtain ⟨s, w, hnext⟩ := before?_of_le hbefore hlt
    obtain ⟨s', w', hs', hturn⟩ := before?_of_succ hnext
    obtain ⟨d, hd⟩ := exists_char_of_next? (next?_of_went hturn).1
    exact ⟨s', w', d, hs', hd⟩

/-- The turn that ends the job is its last. -/
theorem le_of_before? (h : job.before? n = some (s, w))
    (hturn : turn job.program (job.control never) job.monitor n s w = .ended u r) {v : σ}
    (hk : job.before? k = some (t, v)) : k ≤ n := by
  by_contra hlt
  obtain ⟨s', w', hnext⟩ := before?_of_le hk (Nat.succ_le_of_lt (Nat.lt_of_not_le hlt))
  rw [before?_succ_of_ended h hturn] at hnext
  cases hnext

theorem run_of_balanced (hv : balanced job.source.toList = true)
    (hstarted : job.monitor.started job.watched = (w, none)) (cancelled : Nat → Bool)
    (fuel : Nat) :
    job.run cancelled fuel =
      runFrom job.program (job.control cancelled) job.monitor fuel 0 job.initial w := by
  rw [run, Machine.execute, if_pos hv, hstarted]
  rfl

theorem run_of_ended (h : job.before? n = some (s, w))
    (hturn : turn job.program (job.control never) job.monitor n s w = .ended u r) {fuel : Nat}
    (hfuel : n < fuel) : job.run never fuel = ⟨u, some r⟩ := by
  obtain ⟨hv, w', hstarted, hwent⟩ := before?_eq_some_iff.mp h
  rw [run_of_balanced hv hstarted, runFrom_eq_iff]
  refine ⟨n, s, w, hfuel, hwent, ?_⟩
  rwa [Nat.zero_add]

/-- A job that ends takes fewer turns than its fuel. -/
theorem lt_of_run {fuel : Nat} (h : job.run never fuel = ⟨u, some r⟩)
    (hk : job.before? k = some (t, w)) : k < fuel := by
  obtain ⟨hv, w', hstarted, -⟩ := before?_eq_some_iff.mp hk
  rw [run_of_balanced hv hstarted, runFrom_eq_iff] at h
  obtain ⟨n, s, v, hn, hwent, hturn⟩ := h
  rw [Nat.zero_add] at hturn
  have hs : job.before? n = some (s, v) := before?_eq_some_iff.mpr ⟨hv, w', hstarted, hwent⟩
  exact Nat.lt_of_le_of_lt (le_of_before? hs hturn hk) hn

theorem objection?_control (h : cancelled n = false) :
    (job.control cancelled).objection? n = (job.control never).objection? n := by
  simp only [Control.objection?, control, never, h]
  rfl

/-- Without a check that sees the flag it might as well not be raised. -/
theorem run_of_unseen (h : ∀ n, cancelled n = true → ¬ job.Checks n) (fuel : Nat) :
    job.run cancelled fuel = job.run never fuel := by
  cases hv : balanced job.source.toList with
  | false => rw [run, run, Machine.execute_of_unbalanced hv, Machine.execute_of_unbalanced hv]
  | true =>
      cases hstarted : job.monitor.started job.watched with
      | mk w objection =>
          cases objection with
          | some e =>
              rw [run, run, Machine.execute, Machine.execute, if_pos hv, if_pos hv, hstarted]
          | none =>
              rw [run_of_balanced hv hstarted, run_of_balanced hv hstarted]
              apply runFrom_congr
              intro k t u c hk hc
              rw [Nat.zero_add]
              apply objection?_control
              cases hseen : cancelled k with
              | false => rfl
              | true =>
                  have hchecks : job.Checks k :=
                    ⟨t, u, c, before?_eq_some_iff.mpr ⟨hv, w, hstarted, hk⟩, hc⟩
                  exact absurd hchecks (h k hseen)

theorem wentOn?_of_unseen {p : Program} {monitor : Monitor σ} (hn : ∀ j < n, cancelled j = false)
    (h : wentOn? p (job.control never) monitor n 0 s w = some (t, u)) :
    wentOn? p (job.control cancelled) monitor n 0 s w = some (t, u) := by
  induction n generalizing t u with
  | zero => exact h
  | succ n ih =>
      rw [wentOn?_succ] at h ⊢
      obtain ⟨⟨t', u'⟩, ht', hturn⟩ := Option.bind_eq_some_iff.mp h
      rw [ih (fun j hj => hn j (Nat.lt_succ_of_lt hj)) ht', Option.bind_some]
      simp only [Nat.zero_add] at hturn ⊢
      rw [turn_congr fun c _ => objection?_control (hn n (Nat.lt_succ_self n))]
      exact hturn

/-- The first check that sees the flag ends the job, also where its budget is used up. -/
theorem run_of_seen (hseen : cancelled n = true) (hn : ∀ j < n, cancelled j = false)
    (h : job.Checks n) {fuel : Nat} (hfuel : n < fuel) :
    (job.run cancelled fuel).result = some (.error .cancelled) := by
  obtain ⟨t, w, c, hbefore, hc⟩ := h
  obtain ⟨hv, w', hstarted, hwent⟩ := before?_eq_some_iff.mp hbefore
  have hstop : (job.control cancelled).objection? n = some .cancelled := by
    rw [Control.objection?_eq_some_iff]
    exact .inl ⟨hseen, rfl⟩
  have hturn : turn job.program (job.control cancelled) job.monitor (0 + n) t w =
      .ended w (.error .cancelled) := by
    rw [Nat.zero_add]
    exact turn_of_halts (.stopped hc hstop) w
  rw [run_of_balanced hv hstarted,
    runFrom_eq_iff.mpr ⟨n, t, w, hfuel, wentOn?_of_unseen hn hwent, hturn⟩]

/-- A job whose flag is never raised is not cancelled. -/
theorem run_never_ne_crash (hmonitor : job.monitor.FailsInTable) {fuel : Nat}
    (hfuel : fuel ≤ wordMax) (h : (job.run never fuel).result = some r) (cause : Crash) :
    r ≠ .error (.crash cause) := by
  rintro rfl
  exact Machine.not_isInternal_of_execute hmonitor hfuel h trivial

theorem run_never_ne_cancelled (hmonitor : job.monitor.FailsInTable) {fuel : Nat}
    (h : (job.run never fuel).result = some r) : r ≠ .error .cancelled := by
  rintro rfl
  cases hv : balanced job.source.toList with
  | false =>
      obtain ⟨blamed, hblamed⟩ := exists_unmatched? hv
      rw [run, Machine.execute_of_unbalanced hv, Error.ofUnbalanced, hblamed] at h
      cases h
  | true =>
      rcases Machine.execute_error_cases hv h with hstart | ⟨w, row, hexec⟩ | ⟨n, -, t, ht, hhalts⟩
      · obtain ⟨reason, hreason⟩ := hmonitor.started _ _ hstart
        cases hreason
      · obtain ⟨reason, hreason⟩ := hmonitor.executed _ _ _ hexec
        cases hreason
      · cases hhalts with
        | stopped _ hstop =>
            rcases Control.objection?_eq_some_iff.mp hstop with ⟨hseen, -⟩ | ⟨-, limit, -, -, he⟩
            · cases hseen
            · cases he
        | failed hc _ hstep =>
            rcases error_cases_of_balanced hv (sound_after? ht).1 hc hstep with ⟨he, -⟩ | ⟨he, -⟩
            · cases he
            · cases he

end Job
end Brainfuck
