import Brainfuck.Machine.Run

/-!
Runs as iterated steps. A run ends at the first state that has an ending: the end of the program,
an objection of the control, a failed step, or an error of the monitor. So the result of a run,
if its fuel suffices, is the ending of the state that some number of successful steps leads to.
-/

namespace Brainfuck

/-- The state after a step that succeeds. -/
def next? (p : Program) (s : State) : Option State :=
  match step p s with
  | (t, .ok _) => some t
  | (_, .error _) => none

/-- The state after `n` steps that all succeed. -/
def after? (p : Program) : (n : Nat) → State → Option State
  | 0, s => some s
  | n + 1, s => (next? p s).bind (after? p n)

theorem next?_eq_some_iff {p : Program} {s t : State} :
    next? p s = some t ↔ ∃ action, step p s = (t, .ok action) := by
  rw [next?]
  rcases step p s with ⟨u, _ | action⟩ <;> simp

theorem next?_of_ok {p : Program} {s t : State} {action : Action}
    (h : step p s = (t, .ok action)) : next? p s = some t :=
  next?_eq_some_iff.mpr ⟨action, h⟩

theorem next?_of_error {p : Program} {s t : State} {e : Error}
    (h : step p s = (t, .error e)) : next? p s = none := by
  simp only [next?, h]

theorem next?_eq_none_iff {p : Program} {s : State} :
    next? p s = none ↔ ∃ t e, step p s = (t, .error e) := by
  rw [next?]
  rcases step p s with ⟨u, _ | action⟩ <;> simp

theorem step_outside {p : Program} {s : State} (h : p[s.ip]? = none) :
    step p s = s.fail (.crash .outsideProgram) := by
  rw [step, h]

theorem exists_char_of_next? {p : Program} {s t : State} (h : next? p s = some t) :
    ∃ c, p[s.ip]? = some c := by
  cases hc : p[s.ip]? with
  | some c => exact ⟨c, rfl⟩
  | none =>
      rw [next?_of_error (step_outside hc)] at h
      cases h

theorem after?_add (p : Program) (m n : Nat) (s : State) :
    after? p (m + n) s = (after? p m s).bind (after? p n) := by
  induction m generalizing s with
  | zero => simp [after?]
  | succ m ih =>
      rw [Nat.add_right_comm]
      cases hnext : next? p s with
      | none => simp only [after?, hnext, Option.bind_none]
      | some t => simp only [after?, hnext, Option.bind_some, ih t]

theorem after?_one (p : Program) (s : State) : after? p 1 s = next? p s := by
  simp [after?]

theorem after?_trans {p : Program} {m n : Nat} {s t u : State} (h₁ : after? p m s = some t)
    (h₂ : after? p n t = some u) : after? p (m + n) s = some u := by
  rw [after?_add, h₁]
  exact h₂

theorem after?_cons {p : Program} {n : Nat} {s t u : State} (h₁ : next? p s = some t)
    (h₂ : after? p n t = some u) : after? p (n + 1) s = some u := by
  rw [after?, h₁]
  exact h₂

theorem after?_round {p : Program} {n : Nat} {s t u v : State} (h₁ : next? p s = some t)
    (h₂ : after? p n t = some u) (h₃ : next? p u = some v) : after? p (n + 2) s = some v := by
  have hlast : after? p 1 u = some v := (after?_one p u).trans h₃
  exact after?_cons h₁ (after?_trans h₂ hlast)

theorem after?_of_next? {p : Program} {n : Nat} {s t u : State} (hnext : next? p s = some u)
    (h : after? p n s = some t) (hstop : next? p t = none) :
    ∃ m, n = m + 1 ∧ after? p m u = some t := by
  cases n with
  | zero =>
      cases h
      rw [hnext] at hstop
      cases hstop
  | succ n =>
      rw [after?, hnext] at h
      exact ⟨n, rfl, h⟩

theorem after?_sub {p : Program} {m n : Nat} {s t u : State} (h : after? p n s = some t)
    (hu : after? p m s = some u) (hle : m ≤ n) : after? p (n - m) u = some t := by
  have hadd := after?_add p m (n - m) s
  rw [hu, Nat.add_sub_cancel' hle, h] at hadd
  exact hadd.symm

theorem after?_stopped {p : Program} {n : Nat} {s t : State} (hstop : next? p s = none)
    (h : after? p n s = some t) : n = 0 ∧ t = s := by
  cases n with
  | zero =>
      cases h
      exact ⟨rfl, rfl⟩
  | succ n =>
      rw [after?, hstop] at h
      cases h

/-- What holds initially and is kept by every successful step holds along a run. -/
theorem after?_invariant {p : Program} (Inv : Nat → State → Prop)
    (hstep : ∀ k s t, Inv k s → next? p s = some t → Inv (k + 1) t) {n k : Nat} {s t : State}
    (hs : Inv k s) (h : after? p n s = some t) : Inv (k + n) t := by
  induction n generalizing k s with
  | zero =>
      cases h
      exact hs
  | succ n ih =>
      obtain ⟨u, hu, ht⟩ := Option.bind_eq_some_iff.mp h
      rw [← Nat.add_assoc, Nat.add_right_comm]
      exact ih (hstep k s u hs hu) ht

theorem after?_concat {p : Program} {n : Nat} {s t u : State} (h₁ : after? p n s = some t)
    (h₂ : next? p t = some u) : after? p (n + 1) s = some u := by
  have hlast : after? p 1 t = some u := (after?_one p t).trans h₂
  exact after?_trans h₁ hlast

/-- The same from a fixed state, where a step may use that its state was reached. -/
theorem after?_induction {p : Program} {s : State} (Inv : Nat → State → Prop) (hs : Inv 0 s)
    (hstep : ∀ k t u, after? p k s = some t → next? p t = some u → Inv k t → Inv (k + 1) u)
    {n : Nat} {t : State} (h : after? p n s = some t) : Inv n t := by
  have hrun := after?_invariant (fun k t => after? p k s = some t ∧ Inv k t) ?_ ⟨rfl, hs⟩ h
  · rw [Nat.zero_add] at hrun
    exact hrun.2
  · intro k t u ht hu
    exact ⟨after?_concat ht.1 hu, hstep k t u ht.1 hu ht.2⟩

variable {σ : Type}

/-- The state and what the monitor holds after `n` turns of which none ended the run. -/
def wentOn? (p : Program) (control : Control) (monitor : Monitor σ) :
    (n steps : Nat) → State → σ → Option (State × σ)
  | 0, _, s, watched => some (s, watched)
  | n + 1, steps, s, watched =>
    match turn p control monitor steps s watched with
    | .ended _ _ => none
    | .went watched next => wentOn? p control monitor n (steps + 1) next watched

theorem runFrom_eq_iff {p : Program} {control : Control} {monitor : Monitor σ}
    {fuel steps : Nat} {s : State} {w w' : σ} {r : Except Error Report} :
    runFrom p control monitor fuel steps s w = ⟨w', some r⟩ ↔
      ∃ n t u, n < fuel ∧ wentOn? p control monitor n steps s w = some (t, u) ∧
        turn p control monitor (steps + n) t u = .ended w' r := by
  induction fuel generalizing steps s w with
  | zero => simp [runFrom]
  | succ fuel ih =>
      rw [runFrom]
      cases hturn : turn p control monitor steps s w with
      | ended u r' =>
          constructor
          · intro h
            cases h
            exact ⟨0, s, w, by omega, rfl, hturn⟩
          · rintro ⟨_ | n, t, v, -, hwent, hend⟩
            · cases hwent
              rw [Nat.add_zero, hturn] at hend
              cases hend
              rfl
            · simp [wentOn?, hturn] at hwent
      | went u next =>
          simp only
          rw [ih]
          constructor
          · rintro ⟨n, t, v, hn, hwent, hend⟩
            refine ⟨n + 1, t, v, by omega, by rw [wentOn?, hturn]; exact hwent, ?_⟩
            rwa [Nat.add_right_comm] at hend
          · rintro ⟨_ | n, t, v, hn, hwent, hend⟩
            · cases hwent
              rw [Nat.add_zero, hturn] at hend
              cases hend
            · rw [wentOn?, hturn] at hwent
              refine ⟨n, t, v, by omega, hwent, ?_⟩
              rwa [Nat.add_right_comm]

/-- A run that has come to this state ends here, its monitor apart. -/
inductive Halts (p : Program) (control : Control) (steps : Nat) (s : State) :
    Except Error Report → Prop where
  | finished : p[s.ip]? = none → Halts p control steps s (.ok (s.report steps))
  | stopped {c : Char} {e : Error} : p[s.ip]? = some c → control.objection? steps = some e →
      Halts p control steps s (.error e)
  | failed {c : Char} {t : State} {e : Error} : p[s.ip]? = some c →
      control.objection? steps = none → step p s = (t, .error e) →
      Halts p control steps s (.error e)

theorem halts_or_monitor_of_turn {p : Program} {control : Control} {monitor : Monitor σ}
    {steps : Nat} {s : State} {w w' : σ} {r : Except Error Report}
    (h : turn p control monitor steps s w = .ended w' r) :
    Halts p control steps s r ∨
      ∃ row e, monitor.executed w row = (w', some e) ∧ r = .error e := by
  rw [turn] at h
  split at h
  · next hc =>
      cases h
      exact .inl (.finished hc)
  · next c hc =>
      split at h
      · next e he =>
          cases h
          exact .inl (.stopped hc he)
      · next ho =>
          split at h
          · next t e hstep =>
              cases h
              exact .inl (.failed hc ho hstep)
          · next t action hstep =>
              split at h
              · next u e hexec =>
                  cases h
                  exact .inr ⟨_, e, hexec, rfl⟩
              · cases h

theorem turn_of_halts {p : Program} {control : Control} {monitor : Monitor σ} {steps : Nat}
    {s : State} {r : Except Error Report} (h : Halts p control steps s r) (w : σ) :
    turn p control monitor steps s w = .ended w r := by
  cases h with
  | finished hc => simp only [turn, hc]
  | stopped hc he => simp only [turn, hc, he]
  | failed hc ho hstep => simp only [turn, hc, ho, hstep]

theorem turn_silent_ended_iff {p : Program} {control : Control} {steps : Nat} {s : State}
    {r : Except Error Report} :
    turn p control .silent steps s () = .ended () r ↔ Halts p control steps s r := by
  constructor
  · intro h
    rcases halts_or_monitor_of_turn h with h | ⟨row, e, hexec, -⟩
    · exact h
    · simp [Monitor.silent] at hexec
  · intro h
    exact turn_of_halts h ()

theorem next?_of_went {p : Program} {control : Control} {monitor : Monitor σ} {steps : Nat}
    {s t : State} {w w' : σ} (h : turn p control monitor steps s w = .went w' t) :
    next? p s = some t ∧ control.objection? steps = none := by
  rw [turn] at h
  split at h
  · cases h
  · split at h
    · cases h
    · next ho =>
        split at h
        · cases h
        · next hstep =>
            split at h
            · cases h
            · cases h
              exact ⟨next?_of_ok hstep, ho⟩

theorem turn_silent_went {p : Program} {control : Control} {steps : Nat} {s t : State}
    (hnext : next? p s = some t) (ho : control.objection? steps = none) :
    turn p control .silent steps s () = .went () t := by
  obtain ⟨c, hc⟩ := exists_char_of_next? hnext
  obtain ⟨action, hstep⟩ := next?_eq_some_iff.mp hnext
  simp only [turn, hc, ho, hstep, Monitor.silent]

theorem after?_of_wentOn? {p : Program} {control : Control} {monitor : Monitor σ}
    {n steps : Nat} {s t : State} {w w' : σ}
    (h : wentOn? p control monitor n steps s w = some (t, w')) :
    after? p n s = some t ∧ ∀ k < n, control.objection? (steps + k) = none := by
  induction n generalizing steps s w with
  | zero =>
      cases h
      exact ⟨rfl, by omega⟩
  | succ n ih =>
      rw [wentOn?] at h
      split at h
      · cases h
      · next u next hturn =>
          obtain ⟨hnext, ho⟩ := next?_of_went hturn
          obtain ⟨hafter, hrest⟩ := ih h
          refine ⟨after?_cons hnext hafter, ?_⟩
          intro k hk
          cases k with
          | zero => exact ho
          | succ k =>
              have hk' := hrest k (by omega)
              rwa [Nat.add_right_comm] at hk'

theorem wentOn?_silent {p : Program} {control : Control} {n steps : Nat} {s t : State}
    (h : after? p n s = some t) (ho : ∀ k < n, control.objection? (steps + k) = none) :
    wentOn? p control .silent n steps s () = some (t, ()) := by
  induction n generalizing steps s with
  | zero =>
      cases h
      rfl
  | succ n ih =>
      obtain ⟨u, hu, ht⟩ := Option.bind_eq_some_iff.mp h
      have hfirst : control.objection? steps = none := ho 0 (by omega)
      rw [wentOn?, turn_silent_went hu hfirst]
      apply ih ht
      intro k hk
      have hk' := ho (k + 1) (by omega)
      rwa [Nat.add_right_comm]

theorem Machine.execute_error_cases {m : Machine} {control : Control} {monitor : Monitor σ}
    {fuel : Nat} {source input : String} (hv : balanced source.toList = true) {w : σ} {e : Error}
    (h : (m.execute control monitor fuel source input w).result = some (.error e)) :
    (monitor.started w).2 = some e ∨ (∃ u row, (monitor.executed u row).2 = some e) ∨
      ∃ n < fuel, ∃ t,
        after? (.ofString source) n (.initial m.tapeSize input.toList) = some t ∧
          Halts (.ofString source) control n t (.error e) := by
  rw [execute, if_pos hv] at h
  split at h
  · next w' e' hstarted =>
      cases h
      exact .inl (by rw [hstarted])
  · next w' _ =>
      generalize hrun : runFrom _ control monitor fuel 0 _ w' = ending at h
      obtain ⟨w'', result⟩ := ending
      cases h
      obtain ⟨n, t, u, hn, hwent, hend⟩ := runFrom_eq_iff.mp hrun
      rw [Nat.zero_add] at hend
      rcases halts_or_monitor_of_turn hend with hhalts | ⟨row, e', hexec, he⟩
      · exact .inr (.inr ⟨n, hn, t, (after?_of_wentOn? hwent).1, hhalts⟩)
      · cases he
        exact .inr (.inl ⟨u, row, by rw [hexec]⟩)

theorem Machine.exists_report_of_execute {m : Machine} {control : Control} {monitor : Monitor σ}
    {fuel : Nat} {source input : String} {w : σ} {report : Report}
    (h : (m.execute control monitor fuel source input w).result = some (.ok report)) :
    ∃ n t, after? (.ofString source) n (.initial m.tapeSize input.toList) = some t ∧
      (Program.ofString source)[t.ip]? = none ∧ report = t.report n := by
  rw [execute] at h
  split at h
  · split at h
    · cases h
    · next w' _ =>
        generalize hrun : runFrom _ control monitor fuel 0 _ w' = ending at h
        obtain ⟨w'', result⟩ := ending
        cases h
        obtain ⟨n, t, u, -, hwent, hend⟩ := runFrom_eq_iff.mp hrun
        rw [Nat.zero_add] at hend
        cases halts_or_monitor_of_turn hend with
        | inl hhalts =>
            cases hhalts with
            | finished hout => exact ⟨n, t, (after?_of_wentOn? hwent).1, hout, rfl⟩
        | inr hmonitor =>
            obtain ⟨row, e, -, hresult⟩ := hmonitor
            cases hresult
  · cases h

theorem Machine.run_eq_some_iff {m : Machine} {control : Control} {fuel : Nat}
    {source input : String} (hv : balanced source.toList = true) {r : Except Error Report} :
    m.run control fuel source input = some r ↔
      ∃ n t, n < fuel ∧
        after? (.ofString source) n (.initial m.tapeSize input.toList) = some t ∧
        (∀ k < n, control.objection? k = none) ∧ Halts (.ofString source) control n t r := by
  have hrun : m.run control fuel source input = some r ↔
      runFrom (.ofString source) control .silent fuel 0 (.initial m.tapeSize input.toList) () =
        ⟨(), some r⟩ := by
    rw [run, execute, if_pos hv]
    change (runFrom _ _ _ _ _ _ _).result = some r ↔ _
    rcases runFrom _ _ _ _ _ _ _ with ⟨⟨⟩, result⟩
    simp
  rw [hrun, runFrom_eq_iff]
  constructor
  · rintro ⟨n, t, ⟨⟩, hn, hwent, hend⟩
    obtain ⟨hafter, ho⟩ := after?_of_wentOn? hwent
    simp only [Nat.zero_add] at ho hend
    exact ⟨n, t, hn, hafter, ho, turn_silent_ended_iff.mp hend⟩
  · rintro ⟨n, t, hn, hafter, ho, hhalts⟩
    refine ⟨n, t, (), hn, wentOn?_silent hafter (by simpa using ho), ?_⟩
    rw [Nat.zero_add]
    exact turn_of_halts hhalts ()

theorem Control.objection?_eq_some_iff {control : Control} {steps : Nat} {e : Error} :
    control.objection? steps = some e ↔
      control.cancelled steps = true ∧ e = .cancelled ∨
      control.cancelled steps = false ∧
        ∃ limit, control.maxSteps = some limit ∧ limit ≤ steps ∧ e = .stepLimit limit := by
  cases hc : control.cancelled steps with
  | true => simp [objection?, hc, eq_comm]
  | false =>
      cases hm : control.maxSteps with
      | none => simp [objection?, hc, hm]
      | some limit =>
          by_cases hlimit : limit ≤ steps
          · simp [objection?, hc, hm, hlimit, eq_comm]
          · simp [objection?, hc, hm, hlimit]

theorem Control.lt_of_objection?_eq_none {control : Control} {steps limit : Nat}
    (h : control.objection? steps = none) (hm : control.maxSteps = some limit) :
    steps < limit := by
  rw [objection?, hm] at h
  split at h
  · cases h
  · dsimp only at h
    split at h
    · cases h
    · omega

theorem Control.objection?_free (steps : Nat) : Control.free.objection? steps = none := by
  simp [Control.objection?, Control.free]

theorem Machine.run_free_ok_iff {m : Machine} {fuel : Nat} {source input : String}
    (hv : balanced source.toList = true) {report : Report} :
    m.run .free fuel source input = some (.ok report) ↔
      report.steps < fuel ∧ ∃ t,
        after? (.ofString source) report.steps (.initial m.tapeSize input.toList) = some t ∧
          (Program.ofString source)[t.ip]? = none ∧ report = t.report report.steps := by
  rw [run_eq_some_iff hv]
  constructor
  · rintro ⟨n, t, hn, hafter, -, hhalts⟩
    cases hhalts with
    | finished hout => exact ⟨hn, t, hafter, hout, rfl⟩
  · rintro ⟨hn, t, hafter, hout, hreport⟩
    refine ⟨report.steps, t, hn, hafter, fun k _ => Control.objection?_free k, ?_⟩
    rw [hreport]
    exact .finished hout

theorem Machine.run_free_error_iff {m : Machine} {fuel : Nat} {source input : String}
    (hv : balanced source.toList = true) {e : Error} :
    m.run .free fuel source input = some (.error e) ↔
      ∃ n < fuel, ∃ t c u,
        after? (.ofString source) n (.initial m.tapeSize input.toList) = some t ∧
          (Program.ofString source)[t.ip]? = some c ∧
          step (.ofString source) t = (u, .error e) := by
  rw [run_eq_some_iff hv]
  constructor
  · rintro ⟨n, t, hn, hafter, -, hhalts⟩
    cases hhalts with
    | stopped _ ho =>
        rw [Control.objection?_free] at ho
        cases ho
    | failed hc _ hstep => exact ⟨n, hn, t, _, _, hafter, hc, hstep⟩
  · rintro ⟨n, hn, t, c, u, hafter, hc, hstep⟩
    exact ⟨n, t, hn, hafter, fun k _ => Control.objection?_free k,
      .failed hc (Control.objection?_free n) hstep⟩

/-- The run ends with this result, given fuel enough. -/
def Machine.Answers (m : Machine) (control : Control) (source input : String)
    (r : Except Error Report) : Prop :=
  ∃ fuel, m.run control fuel source input = some r

theorem Machine.answers_ok_iff {m : Machine} {source input : String}
    (hv : balanced source.toList = true) {report : Report} :
    m.Answers .free source input (.ok report) ↔
      ∃ t, after? (.ofString source) report.steps (.initial m.tapeSize input.toList) = some t ∧
        (Program.ofString source)[t.ip]? = none ∧ report = t.report report.steps := by
  simp only [Answers, run_free_ok_iff hv]
  constructor
  · rintro ⟨fuel, -, h⟩
    exact h
  · intro h
    exact ⟨report.steps + 1, Nat.lt_succ_self _, h⟩

theorem Machine.answers_error_iff {m : Machine} {source input : String}
    (hv : balanced source.toList = true) {e : Error} :
    m.Answers .free source input (.error e) ↔
      ∃ n t c u, after? (.ofString source) n (.initial m.tapeSize input.toList) = some t ∧
        (Program.ofString source)[t.ip]? = some c ∧
        step (.ofString source) t = (u, .error e) := by
  simp only [Answers, run_free_error_iff hv]
  constructor
  · rintro ⟨fuel, n, -, h⟩
    exact ⟨n, h⟩
  · rintro ⟨n, h⟩
    exact ⟨n + 1, n, Nat.lt_succ_self n, h⟩

theorem Error.ofUnbalanced_ne_crash (source : List Char) (cause : Crash) :
    Error.ofUnbalanced source ≠ .crash cause := by
  rw [Error.ofUnbalanced]
  split
  · exact Error.noConfusion
  · exact Error.noConfusion

theorem Machine.execute_of_unbalanced {m : Machine} {control : Control} {monitor : Monitor σ}
    {fuel : Nat} {source input : String} (hv : balanced source.toList = false) {w : σ} :
    m.execute control monitor fuel source input w =
      ⟨w, some (.error (.ofUnbalanced source.toList))⟩ := by
  rw [execute, if_neg (by simp [hv])]

theorem Machine.run_of_unbalanced {m : Machine} {control : Control} {fuel : Nat}
    {source input : String} (hv : balanced source.toList = false) :
    m.run control fuel source input = some (.error (.ofUnbalanced source.toList)) := by
  rw [run, execute_of_unbalanced hv]

theorem Machine.answers_of_unbalanced {m : Machine} {control : Control} {source input : String}
    (hv : balanced source.toList = false) {r : Except Error Report} :
    m.Answers control source input r ↔ r = .error (.ofUnbalanced source.toList) := by
  simp only [Answers, run_of_unbalanced hv, Option.some.injEq]
  constructor
  · rintro ⟨-, h⟩
    exact h.symm
  · intro h
    exact ⟨0, h.symm⟩

end Brainfuck
