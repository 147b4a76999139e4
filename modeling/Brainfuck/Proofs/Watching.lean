import Brainfuck.Evaluation
import Brainfuck.Proofs.Runs

/-!
Monitors of a run. What a monitor holds may have a property that it keeps whatever it is told. A
monitor that, as long as it keeps it, never objects is not noticed by the run: the run has the result
that it has unobserved. So an evaluation has the result of the machine that its settings describe,
whether or not a step table is shown or jumps are logged, and its log holds nothing as severe as a
warning.
-/

namespace Brainfuck

variable {σ τ : Type} {Inv : σ → Prop} {monitor : Monitor σ}

/-- Whatever the monitor is told, what it holds keeps the property. -/
structure Monitor.Keeps (monitor : Monitor σ) (Inv : σ → Prop) : Prop where
  started : ∀ w, Inv w → Inv (monitor.started w).1
  executed : ∀ w row, Inv w → Inv (monitor.executed w row).1

/-- What the monitor holds after the turn. -/
def Turn.watched : Turn σ → σ
  | .ended w _ => w
  | .went w _ => w

namespace Monitor.Keeps

theorem watched_turn (h : monitor.Keeps Inv) {p : Program} {control : Control} {steps : Nat}
    {s : State} {w : σ} (hw : Inv w) : Inv (turn p control monitor steps s w).watched := by
  -- The monitor hears only of a step that succeeds; all other turns leave it alone.
  have hrow : ∀ {row u}, (monitor.executed w row).1 = u → Inv u := by
    rintro row u rfl
    exact h.executed w row hw
  unfold turn
  split
  · exact hw
  · split
    · exact hw
    · split
      · exact hw
      · split
        · next hexec => exact hrow (congrArg Prod.fst hexec)
        · next hexec => exact hrow (congrArg Prod.fst hexec)

theorem watched_runFrom (h : monitor.Keeps Inv) {p : Program} {control : Control} {fuel : Nat}
    {steps : Nat} {s : State} {w : σ} (hw : Inv w) :
    Inv (runFrom p control monitor fuel steps s w).watched := by
  induction fuel generalizing steps s w with
  | zero => exact hw
  | succ fuel ih =>
      have hturn : Inv (turn p control monitor steps s w).watched := h.watched_turn hw
      rw [runFrom]
      cases hcase : turn p control monitor steps s w with
      | ended u r =>
          rw [hcase] at hturn
          exact hturn
      | went u t =>
          rw [hcase] at hturn
          exact ih hturn

theorem watched_execute (h : monitor.Keeps Inv) {m : Machine} {control : Control} {fuel : Nat}
    {source input : String} {w : σ} (hw : Inv w) :
    Inv (m.execute control monitor fuel source input w).watched := by
  have hstart := h.started w hw
  unfold Machine.execute
  split
  · split
    · next hstarted =>
        rw [hstarted] at hstart
        exact hstart
    · next hstarted =>
        rw [hstarted] at hstart
        exact h.watched_runFrom hstart
  · exact hw

theorem onlyIf (h : monitor.Keeps Inv) (on : Bool) : (monitor.onlyIf on).Keeps Inv := by
  cases on with
  | true => exact h
  | false => exact ⟨fun _ hw => hw, fun _ _ hw => hw⟩

/-- The second of two monitors is told less, but only if the first has objected. -/
theorem both {first : Monitor τ} (h : monitor.Keeps Inv) :
    (first.both monitor).Keeps fun w => Inv w.2 where
  started := by
    rintro ⟨u, w⟩ hw
    simp only [Monitor.both]
    split
    · exact hw
    · exact h.started w hw
  executed := by
    rintro ⟨u, w⟩ row hw
    simp only [Monitor.both]
    split
    · exact hw
    · exact h.executed w row hw

end Monitor.Keeps

def Turn.map (f : σ → τ) : Turn σ → Turn τ
  | .ended w r => .ended (f w) r
  | .went w next => .went (f w) next

def Ending.map (f : σ → τ) (ending : Ending σ) : Ending τ :=
  ⟨f ending.watched, ending.result⟩

/-- As long as what the first monitor holds has the property, the second one holds what `f` makes
of it and objects when the first one does. -/
structure Monitor.Projects (monitor : Monitor σ) (Inv : σ → Prop) (f : σ → τ)
    (other : Monitor τ) : Prop extends monitor.Keeps Inv where
  started_eq : ∀ w, Inv w →
    other.started (f w) = (f (monitor.started w).1, (monitor.started w).2)
  executed_eq : ∀ w row, Inv w →
    other.executed (f w) row = (f (monitor.executed w row).1, (monitor.executed w row).2)

namespace Monitor.Projects

variable {f : σ → τ} {other : Monitor τ} {p : Program} {control : Control} {steps fuel : Nat}
  {s : State} {w : σ}

theorem turn_eq (h : monitor.Projects Inv f other) (hw : Inv w) :
    turn p control other steps s (f w) = (turn p control monitor steps s w).map f := by
  unfold turn
  cases p[s.ip]? with
  | none => rfl
  | some c =>
      cases control.objection? steps with
      | some e => rfl
      | none =>
          cases step p s with
          | mk next attempt =>
              cases attempt with
              | error e => rfl
              | ok action =>
                  dsimp only
                  rw [h.executed_eq w _ hw]
                  cases monitor.executed w ⟨steps, s.ip, s.head, s.cell, c, action⟩ with
                  | mk u objection =>
                      cases objection with
                      | none => rfl
                      | some e => rfl

theorem runFrom_eq (h : monitor.Projects Inv f other) (hw : Inv w) :
    runFrom p control other fuel steps s (f w) =
      (runFrom p control monitor fuel steps s w).map f := by
  induction fuel generalizing steps s w with
  | zero => rfl
  | succ fuel ih =>
      have hkeeps : Inv (turn p control monitor steps s w).watched := h.watched_turn hw
      rw [runFrom, runFrom, h.turn_eq hw]
      cases hturn : turn p control monitor steps s w with
      | ended u r => rfl
      | went u next =>
          rw [hturn] at hkeeps
          exact ih hkeeps

theorem execute_eq (h : monitor.Projects Inv f other) (hw : Inv w) (m : Machine)
    (source input : String) :
    m.execute control other fuel source input (f w) =
      (m.execute control monitor fuel source input w).map f := by
  have hkeeps := h.started w hw
  rw [Machine.execute, Machine.execute, h.started_eq w hw]
  cases balanced source.toList with
  | false => rfl
  | true =>
      cases hstarted : monitor.started w with
      | mk u objection =>
          rw [hstarted] at hkeeps
          cases objection with
          | some e => rfl
          | none => exact h.runFrom_eq hkeeps

end Monitor.Projects

/-- As long as what the monitor holds has the property, it keeps it and never objects. -/
structure Monitor.Consents (monitor : Monitor σ) (Inv : σ → Prop) : Prop extends
    monitor.Keeps Inv where
  starts : ∀ w, Inv w → (monitor.started w).2 = none
  goesOn : ∀ w row, Inv w → (monitor.executed w row).2 = none

namespace Monitor.Consents

/-- A monitor that never objects is as good as none. -/
theorem projects_silent (h : monitor.Consents Inv) :
    monitor.Projects Inv (fun _ => ()) .silent where
  toKeeps := h.toKeeps
  started_eq w hw := by
    rw [h.starts w hw]
    rfl
  executed_eq w row hw := by
    rw [h.goesOn w row hw]
    rfl

/-- A run that its monitor never objects to has the result that it has unobserved. -/
theorem result_execute (h : monitor.Consents Inv) {w : σ} (hw : Inv w) (m : Machine)
    (control : Control) (fuel : Nat) (source input : String) :
    (m.execute control monitor fuel source input w).result =
      m.run control fuel source input :=
  (congrArg Ending.result (h.projects_silent.execute_eq hw m source input)).symm

theorem onlyIf (h : monitor.Consents Inv) (on : Bool) : (monitor.onlyIf on).Consents Inv := by
  cases on with
  | true => exact h
  | false => exact ⟨h.toKeeps.onlyIf false, fun _ _ => rfl, fun _ _ _ => rfl⟩

/-- Beside a monitor that never objects another one notices nothing of it. -/
theorem projects_first (h : monitor.Consents Inv) (first : Monitor τ) :
    (first.both monitor).Projects (fun w => Inv w.2) Prod.fst first where
  toKeeps := h.toKeeps.both
  started_eq := by
    rintro ⟨u, w⟩ hw
    have hnone := h.starts w hw
    simp only [Monitor.both]
    cases first.started u with
    | mk u' objection =>
        cases objection with
        | some e => rfl
        | none => simp only [hnone]
  executed_eq := by
    rintro ⟨u, w⟩ row hw
    have hnone := h.goesOn w row hw
    simp only [Monitor.both]
    cases first.executed u row with
    | mk u' objection =>
        cases objection with
        | some e => rfl
        | none => simp only [hnone]

end Monitor.Consents

/-- A sink without a limit takes everything and stays without one. -/
theorem Sink.write_unlimited {sink : Sink} (h : sink.capacity = none) (text : String) :
    (sink.write text).1.capacity = none ∧ (sink.write text).2 = none := by
  simp [write, h]

theorem Monitor.consents_table : Monitor.table.Consents (·.capacity = none) where
  started _ hsink := (Sink.write_unlimited hsink _).1
  executed _ _ hsink := (Sink.write_unlimited hsink _).1
  starts _ hsink := (Sink.write_unlimited hsink _).2
  goesOn _ _ hsink := (Sink.write_unlimited hsink _).2

theorem Log.consents_jumps : Log.jumps.Consents fun _ => True where
  started _ _ := trivial
  executed _ _ _ := trivial
  starts _ _ := rfl
  goesOn _ row _ := by
    simp only [Log.jumps]
    cases Log.jump? row with
    | none => rfl
    | some jump => rfl

/-- Jumps are logged as traces. -/
theorem Log.keeps_jumps :
    Log.jumps.Keeps fun entries => ∀ entry ∈ entries, entry.level = .trace where
  started _ hentries := hentries
  executed entries row hentries := by
    simp only [Log.jumps]
    cases hjump : Log.jump? row with
    | none => exact hentries
    | some jump =>
        have htrace : jump.level = .trace := by
          unfold Log.jump? at hjump
          split at hjump
          · cases hjump
            rfl
          · cases hjump
            rfl
          · cases hjump
        intro entry hentry
        rcases Array.mem_push.mp hentry with hold | rfl
        · exact hentries entry hold
        · exact htrace

/-- What is logged for debugging is less severe than a warning. -/
theorem Log.quiet_debug : Log.Level.warn.detail < Log.Level.debug.detail := by
  decide

theorem delivery_eq_some_iff {r r' : Except Error Report} :
    delivery r = some r' ↔ r = r' ∧ ∀ cause, r ≠ .error (.crash cause) := by
  unfold delivery
  split
  · next cause => simp
  · next hr => exact ⟨fun h => ⟨Option.some.inj h, hr⟩, fun h => congrArg some h.1⟩

theorem delivery_eq_none_iff {r : Except Error Report} :
    delivery r = none ↔ ∃ cause, r = .error (.crash cause) := by
  unfold delivery
  split
  · next cause => exact ⟨fun _ => ⟨cause, rfl⟩, fun _ => rfl⟩
  · next hr =>
      constructor
      · intro h
        cases h
      · rintro ⟨cause, h⟩
        exact absurd h (hr cause)

/-- The step table of a run that is given so many turns, if it is asked for. -/
def shownTable (asked : Bool) (m : Machine) (control : Control) (fuel : Nat)
    (source input : String) : String :=
  if asked then (m.runTabled control fuel source input (.empty none)).watched.text else ""

section Evaluations

variable (settings : Settings) (watching : Watching) (patience : Nat) (source input : String)

/-- The jumps that are logged beside it do not change how a step table is written. -/
theorem execute_tabled_eq :
    settings.machine.execute settings.control (Monitor.table.onlyIf watching.table) patience
        source input (.empty none) =
      (settings.machine.execute settings.control
        ((Monitor.table.onlyIf watching.table).both (Log.jumps.onlyIf watching.jumps)) patience
        source input (.empty none, #[])).map Prod.fst :=
  ((Log.consents_jumps.onlyIf watching.jumps).projects_first _).execute_eq
    (w := (Sink.empty none, #[])) trivial settings.machine source input

/-- An evaluation has the result of the machine that its settings describe, under their budget, for
as long as the caller waits; how it is watched does not matter. -/
theorem result_evaluate :
    (evaluate settings watching patience source input).result =
      ((settings.machine.run settings.control patience source input).bind delivery).getD
        (.error .cancelled) := by
  have hresult := (Monitor.consents_table.onlyIf watching.table).result_execute
    (w := .empty none) rfl settings.machine settings.control patience source input
  rw [execute_tabled_eq] at hresult
  rw [← hresult]
  rfl

/-- An evaluation that is to show its step table shows that of the machine, and no other shows
anything. -/
theorem table_evaluate :
    (evaluate settings watching patience source input).table =
      shownTable watching.table settings.machine settings.control patience source input := by
  have htable : (evaluate settings watching patience source input).table =
      (settings.machine.execute settings.control (Monitor.table.onlyIf watching.table) patience
        source input (.empty none)).watched.text := by
    simp only [evaluate, execute_tabled_eq, Ending.map]
  rw [htable, shownTable]
  cases watching.table with
  | true =>
      have hon : Monitor.table.onlyIf true = Monitor.table := rfl
      rw [hon, if_pos rfl, Machine.runTabled]
  | false =>
      have hkeeps : (Monitor.table.onlyIf false).Keeps (· = Sink.empty none) :=
        ⟨fun _ hw => hw, fun _ _ hw => hw⟩
      rw [hkeeps.watched_execute rfl, if_neg Bool.false_ne_true]
      rfl

variable {settings watching patience source input}

/-- But for a crash, an evaluation that was not cancelled has a result exactly if its run has. -/
theorem evaluate_eq_iff {r : Except Error Report} (hcrash : ∀ cause, r ≠ .error (.crash cause))
    (hcancelled : r ≠ .error .cancelled) :
    (evaluate settings watching patience source input).result = r ↔
      settings.machine.run settings.control patience source input = some r := by
  rw [result_evaluate]
  cases settings.machine.run settings.control patience source input with
  | none => simp [hcancelled.symm]
  | some r' =>
      rw [Option.bind_some]
      cases hdelivery : delivery r' with
      | none =>
          obtain ⟨cause, rfl⟩ := delivery_eq_none_iff.mp hdelivery
          simp [hcancelled.symm, (hcrash cause).symm]
      | some sent =>
          obtain ⟨rfl, -⟩ := delivery_eq_some_iff.mp hdelivery
          simp

/-- An evaluation logs nothing as severe as a warning. -/
theorem quiet_evaluate {entry : Log.Entry}
    (h : entry ∈ (evaluate settings watching patience source input).log) :
    Log.Level.warn.detail < entry.level.detail := by
  have hjumps : ∀ entry ∈ (settings.machine.execute settings.control
      ((Monitor.table.onlyIf watching.table).both (Log.jumps.onlyIf watching.jumps)) patience
      source input (.empty none, #[])).watched.2, entry.level = .trace :=
    (Log.keeps_jumps.onlyIf watching.jumps).both.watched_execute (by simp)
  -- However the run ends, one entry at most comes behind the jumps.
  obtain ⟨last, hlast, hmem⟩ : ∃ last : Log.Entry, last.level = .debug ∧
      entry ∈ Log.runStarted source.length input.length settings.tapeSize ::
        (settings.machine.execute settings.control
          ((Monitor.table.onlyIf watching.table).both (Log.jumps.onlyIf watching.jumps)) patience
          source input (.empty none, #[])).watched.2.toList ++ [last] := by
    simp only [evaluate] at h
    split at h
    · exact ⟨_, rfl, h⟩
    · cases h
    · exact ⟨Log.workerCancelled settings.timeoutMs, rfl, List.mem_append_left _ h⟩
    · exact ⟨_, rfl, h⟩
  rcases List.mem_append.mp hmem with hbegun | hend
  · rcases List.mem_cons.mp hbegun with rfl | hjump
    · exact Log.quiet_debug
    · rw [hjumps entry (Array.mem_def.mpr hjump)]
      decide
  · rw [List.mem_singleton.mp hend, hlast]
    exact Log.quiet_debug

end Evaluations

end Brainfuck
