import Brainfuck.Proofs.Runs

/-!
The rows of a run: what its monitor is told, one row for each step that succeeds. A monitor takes
no part in a run but to end it, so a run under any monitor is the run without one, cut at the
first row to which the monitor objects. What a monitor holds in the end is a matter of the rows
alone.

Main statement: how the execution of a source ends under a monitor, given how it ends without.
-/

namespace Brainfuck

/-- The rows of the first `n` steps, up to one that fails, numbered from `number` on. -/
def rowsFrom (p : Program) : (n number : Nat) → State → List Row
  | 0, _, _ => []
  | n + 1, number, s =>
    match p[s.ip]?, step p s with
    | some c, (t, .ok action) =>
      ⟨number, s.ip, s.head, s.cell, c, action⟩ :: rowsFrom p n (number + 1) t
    | _, _ => []

theorem rowsFrom_succ {p : Program} {s t : State} {c : Char} {action : Action}
    (hc : p[s.ip]? = some c) (hstep : step p s = (t, .ok action)) (n number : Nat) :
    rowsFrom p (n + 1) number s =
      ⟨number, s.ip, s.head, s.cell, c, action⟩ :: rowsFrom p n (number + 1) t := by
  simp only [rowsFrom, hc, hstep]

theorem length_rowsFrom {p : Program} {n : Nat} {s t : State} (h : after? p n s = some t)
    (number : Nat) : (rowsFrom p n number s).length = n := by
  induction n generalizing s number with
  | zero => rfl
  | succ n ih =>
      obtain ⟨u, hu, ht⟩ := Option.bind_eq_some_iff.mp h
      obtain ⟨c, hc⟩ := exists_char_of_next? hu
      obtain ⟨action, hstep⟩ := next?_eq_some_iff.mp hu
      rw [rowsFrom_succ hc hstep, List.length_cons, ih ht]

theorem rowsFrom_add {p : Program} {m : Nat} {s t : State} (h : after? p m s = some t)
    (n number : Nat) :
    rowsFrom p (m + n) number s = rowsFrom p m number s ++ rowsFrom p n (number + m) t := by
  induction m generalizing s number with
  | zero =>
      cases h
      rw [Nat.zero_add]
      rfl
  | succ m ih =>
      obtain ⟨u, hu, ht⟩ := Option.bind_eq_some_iff.mp h
      obtain ⟨c, hc⟩ := exists_char_of_next? hu
      obtain ⟨action, hstep⟩ := next?_eq_some_iff.mp hu
      rw [Nat.add_right_comm, rowsFrom_succ hc hstep, rowsFrom_succ hc hstep, ih ht,
        List.cons_append, Nat.add_right_comm number 1 m, Nat.add_assoc number m 1]

theorem rowsFrom_concat {p : Program} {n : Nat} {s t u : State} {c : Char} {action : Action}
    (h : after? p n s = some t) (hc : p[t.ip]? = some c) (hstep : step p t = (u, .ok action))
    (number : Nat) :
    rowsFrom p (n + 1) number s =
      rowsFrom p n number s ++ [⟨number + n, t.ip, t.head, t.cell, c, action⟩] := by
  rw [rowsFrom_add h, rowsFrom_succ hc hstep]
  rfl

variable {σ : Type}

/-- How a run with these rows ends under the monitor, if it ends with `r` without one. -/
def Monitor.watch (monitor : Monitor σ) (r : Except Error Report) : List Row → σ → Ending σ
  | [], watched => ⟨watched, some r⟩
  | row :: rest, watched =>
    match monitor.executed watched row with
    | (watched, some e) => ⟨watched, some (.error e)⟩
    | (watched, none) => watch monitor r rest watched

theorem turn_of_step {p : Program} {control : Control} {monitor : Monitor σ} {number : Nat}
    {s t : State} {c : Char} {action : Action} (hc : p[s.ip]? = some c)
    (hstep : step p s = (t, .ok action)) (ho : control.objection? number = none) (w : σ) :
    turn p control monitor number s w =
      match monitor.executed w ⟨number, s.ip, s.head, s.cell, c, action⟩ with
      | (w, some e) => .ended w (.error e)
      | (w, none) => .went w t := by
  cases hexec : monitor.executed w ⟨number, s.ip, s.head, s.cell, c, action⟩ with
  | mk w' objection =>
      cases objection with
      | some e => simp only [turn, hc, ho, hstep, hexec]
      | none => simp only [turn, hc, ho, hstep, hexec]

theorem runFrom_eq_watch {p : Program} {control : Control} {n fuel number : Nat} {s t : State}
    {r : Except Error Report} (h : after? p n s = some t) (hfuel : n < fuel)
    (ho : ∀ k < n, control.objection? (number + k) = none)
    (hend : Halts p control (number + n) t r) (monitor : Monitor σ) (w : σ) :
    runFrom p control monitor fuel number s w = monitor.watch r (rowsFrom p n number s) w := by
  induction n generalizing fuel number s w with
  | zero =>
      cases h
      cases fuel with
      | zero => omega
      | succ fuel =>
          rw [Nat.add_zero] at hend
          rw [runFrom, turn_of_halts hend]
          rfl
  | succ n ih =>
      obtain ⟨u, hu, ht⟩ := Option.bind_eq_some_iff.mp h
      obtain ⟨c, hc⟩ := exists_char_of_next? hu
      obtain ⟨action, hstep⟩ := next?_eq_some_iff.mp hu
      have hfirst : control.objection? number = none := ho 0 (by omega)
      have hrest : ∀ k < n, control.objection? (number + 1 + k) = none := by
        intro k hk
        rw [Nat.add_right_comm]
        exact ho (k + 1) (by omega)
      have hend' : Halts p control (number + 1 + n) t r := by
        rw [Nat.add_right_comm]
        exact hend
      cases fuel with
      | zero => omega
      | succ fuel =>
          rw [runFrom, turn_of_step hc hstep hfirst, rowsFrom_succ hc hstep, Monitor.watch]
          cases hexec : monitor.executed w ⟨number, s.ip, s.head, s.cell, c, action⟩ with
          | mk w' objection =>
              cases objection with
              | some e => rfl
              | none => exact ih ht (by omega) hrest hend' w'

namespace Machine

/-- The rows of the first `n` steps of a source. -/
def rows (m : Machine) (source input : String) (n : Nat) : List Row :=
  rowsFrom (.ofString source) n 0 (.initial m.tapeSize input.toList)

/-- The run of a source takes `n` steps, to which its control does not object, and ends in the
state `t` with `r`. -/
structure EndsAt (m : Machine) (control : Control) (source input : String) (n : Nat) (t : State)
    (r : Except Error Report) : Prop where
  reached : after? (.ofString source) n (.initial m.tapeSize input.toList) = some t
  allowed : ∀ k < n, control.objection? k = none
  halts : Halts (.ofString source) control n t r

variable {m : Machine} {control : Control} {source input : String}

theorem run_eq_some_iff_endsAt (hv : balanced source.toList = true) {fuel : Nat}
    {r : Except Error Report} :
    m.run control fuel source input = some r ↔
      ∃ n < fuel, ∃ t, m.EndsAt control source input n t r := by
  rw [run_eq_some_iff hv]
  constructor
  · intro h
    obtain ⟨n, t, hn, hafter, ho, hhalts⟩ := h
    exact ⟨n, hn, t, hafter, ho, hhalts⟩
  · intro h
    obtain ⟨n, hn, t, hend⟩ := h
    exact ⟨n, t, hn, hend.reached, hend.allowed, hend.halts⟩

/-- Under a monitor the source is executed as without one, until the monitor objects. -/
theorem EndsAt.execute_eq (hv : balanced source.toList = true) {n fuel : Nat} {t : State}
    {r : Except Error Report} (h : m.EndsAt control source input n t r) (hfuel : n < fuel)
    (monitor : Monitor σ) (w : σ) :
    m.execute control monitor fuel source input w =
      match monitor.started w with
      | (w, some e) => ⟨w, some (.error e)⟩
      | (w, none) => monitor.watch r (m.rows source input n) w := by
  rw [execute, if_pos hv]
  cases hstarted : monitor.started w with
  | mk w' objection =>
      cases objection with
      | some e => rfl
      | none =>
          apply runFrom_eq_watch h.reached hfuel
          · intro k hk
            rw [Nat.zero_add]
            exact h.allowed k hk
          · rw [Nat.zero_add]
            exact h.halts

/-- More fuel than a run needs changes nothing, neither for the run nor for its monitor. -/
theorem execute_of_le {fuel fuel' : Nat} {r : Except Error Report}
    (h : m.run control fuel source input = some r) (hle : fuel ≤ fuel') (monitor : Monitor σ)
    (w : σ) :
    m.execute control monitor fuel' source input w =
      m.execute control monitor fuel source input w := by
  cases hv : balanced source.toList with
  | false => rw [execute_of_unbalanced hv, execute_of_unbalanced hv]
  | true =>
      obtain ⟨n, hn, t, hend⟩ := (run_eq_some_iff_endsAt hv).mp h
      rw [hend.execute_eq hv hn, hend.execute_eq hv (Nat.lt_of_lt_of_le hn hle)]

theorem run_of_le {fuel fuel' : Nat} {r : Except Error Report}
    (h : m.run control fuel source input = some r) (hle : fuel ≤ fuel') :
    m.run control fuel' source input = some r := by
  rw [run, execute_of_le h hle]
  exact h

end Machine
end Brainfuck
