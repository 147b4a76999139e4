import Brainfuck.Proofs.Lines
import Brainfuck.Proofs.Rows
import Brainfuck.Proofs.Steps

/-!
The step table of a run. A limited sink holds the first bytes of what was written to it, as many as
it takes, and the run ends with the write that does not fit. So the table is in the sink whole and
the result is that of the run without a table, or the sink is full of the beginning of the table.

Main statement: where the limit falls decides both, and the table has one line for each step.
-/

namespace Brainfuck
namespace Sink

/-- A sink of this capacity takes the whole text. -/
def Fits : (capacity : Option Nat) → String → Prop
  | none, _ => True
  | some limit, text => text.utf8ByteSize ≤ limit

instance : (capacity : Option Nat) → (text : String) → Decidable (Fits capacity text)
  | none, _ => .isTrue trivial
  | some limit, text => inferInstanceAs (Decidable (text.utf8ByteSize ≤ limit))

/-- The sink to which nothing but the text was written, up to its capacity. -/
def holding : (capacity : Option Nat) → String → Sink
  | none, text => ⟨none, text.toUTF8⟩
  | some limit, text => ⟨some limit, text.toUTF8.extract 0 limit⟩

/-- How a run ends that would end with `r` and writes the text while it goes on. -/
def ending (capacity : Option Nat) (text : String) (r : Except Error Report) : Ending Sink :=
  ⟨holding capacity text, some (if Fits capacity text then r else .error (.table "sink full"))⟩

variable {capacity : Option Nat} {done text : String} {r : Except Error Report}

theorem fits_empty (capacity : Option Nat) : Fits capacity "" := by
  cases capacity with
  | none => trivial
  | some limit => exact Nat.zero_le limit

theorem fits_of_append (h : Fits capacity (done ++ text)) : Fits capacity done := by
  cases capacity with
  | none => trivial
  | some limit =>
      rw [Fits, String.utf8ByteSize_append] at h
      rw [Fits]
      omega

theorem toUTF8_append (s t : String) : (s ++ t).toUTF8 = s.toUTF8 ++ t.toUTF8 := by
  simp only [String.toUTF8_eq_toByteArray, String.toByteArray_append]

theorem size_toUTF8 (s : String) : s.toUTF8.size = s.utf8ByteSize := by
  rw [String.toUTF8_eq_toByteArray]
  rfl

theorem extract_of_size_le {bytes : ByteArray} {limit : Nat} (h : bytes.size ≤ limit) :
    bytes.extract 0 limit = bytes := by
  have hall : bytes.extract 0 (max limit bytes.size) = bytes := ByteArray.extract_zero_max_size
  rwa [Nat.max_eq_left h] at hall

theorem empty_eq_holding (capacity : Option Nat) : empty capacity = holding capacity "" := by
  cases capacity with
  | none => rfl
  | some limit =>
      have hnone : "".toUTF8.extract 0 limit = "".toUTF8 := extract_of_size_le (Nat.zero_le limit)
      rw [holding, hnone]
      rfl

theorem write_of_fits (h : Fits capacity (done ++ text)) :
    (holding capacity done).write text = (holding capacity (done ++ text), none) := by
  cases capacity with
  | none => rw [holding, holding, write, toUTF8_append]
  | some limit =>
      rw [Fits, String.utf8ByteSize_append] at h
      have hdone : done.toUTF8.size ≤ limit := by
        rw [size_toUTF8]
        omega
      have hroom : text.toUTF8.size ≤ limit - done.toUTF8.size := by
        rw [size_toUTF8, size_toUTF8]
        omega
      have hall : (done ++ text).toUTF8.size ≤ limit := by
        rw [size_toUTF8, String.utf8ByteSize_append]
        exact h
      rw [holding, holding, extract_of_size_le hdone, extract_of_size_le hall, write]
      simp only [if_pos hroom, toUTF8_append]

theorem write_of_not_fits (hdone : Fits capacity done) (h : ¬ Fits capacity (done ++ text)) :
    (holding capacity done).write text =
      (holding capacity (done ++ text), some (.table "sink full")) := by
  cases capacity with
  | none => exact absurd trivial h
  | some limit =>
      rw [Fits, ← size_toUTF8] at hdone
      have hroom : ¬ text.toUTF8.size ≤ limit - done.toUTF8.size := by
        intro hle
        apply h
        rw [Fits, ← size_toUTF8, toUTF8_append, ByteArray.size_append]
        omega
      rw [holding, holding, extract_of_size_le hdone, write, toUTF8_append,
        ByteArray.extract_append, extract_of_size_le hdone, Nat.zero_sub]
      simp only [if_neg hroom]

theorem write_empty_of_fits (h : Fits capacity text) :
    (empty capacity).write text = (holding capacity text, none) := by
  rw [← String.empty_append (s := text)] at h
  rw [empty_eq_holding, write_of_fits h, String.empty_append]

theorem write_empty_of_not_fits (h : ¬ Fits capacity text) :
    (empty capacity).write text = (holding capacity text, some (.table "sink full")) := by
  rw [← String.empty_append (s := text)] at h
  rw [empty_eq_holding, write_of_not_fits (fits_empty capacity) h, String.empty_append]

/-- A full sink takes no more. -/
theorem holding_append (h : ¬ Fits capacity done) :
    holding capacity (done ++ text) = holding capacity done := by
  cases capacity with
  | none => exact absurd trivial h
  | some limit =>
      rw [Fits, ← size_toUTF8] at h
      have hfull : limit - done.toUTF8.size = 0 := by omega
      rw [holding, holding, toUTF8_append, ByteArray.extract_append, Nat.zero_sub, hfull,
        ByteArray.extract_same, ByteArray.append_empty]

theorem ending_of_fits (h : Fits capacity text) :
    ending capacity text r = ⟨holding capacity text, some r⟩ := by
  rw [ending, if_pos h]

theorem ending_append (h : ¬ Fits capacity done) :
    ending capacity (done ++ text) r =
      ⟨holding capacity done, some (.error (.table "sink full"))⟩ := by
  rw [ending, if_neg (fun hall => h (fits_of_append hall)), holding_append h]

end Sink

open Sink

theorem Monitor.started_table (sink : Sink) :
    Monitor.table.started sink = sink.write Table.heading :=
  rfl

theorem Monitor.executed_table (sink : Sink) (row : Row) :
    Monitor.table.executed sink row = sink.write (Table.line row) :=
  rfl

theorem Monitor.watch_table {capacity : Option Nat} {done : String} {r : Except Error Report}
    (hdone : Fits capacity done) (rows : List Row) :
    Monitor.table.watch r rows (holding capacity done) =
      ending capacity (done ++ String.join (rows.map Table.line)) r := by
  induction rows generalizing done with
  | nil =>
      rw [List.map_nil, String.join_nil, String.append_empty, ending_of_fits hdone]
      rfl
  | cons row rows ih =>
      rw [List.map_cons, String.join_cons, ← String.append_assoc, watch, executed_table]
      by_cases hfits : Fits capacity (done ++ Table.line row)
      · rw [write_of_fits hfits]
        exact ih hfits
      · -- The sink is full now, so the rows that are never written would not change it.
        rw [write_of_not_fits hdone hfits, ending_append hfits]

namespace Machine

/-- The table of the first `n` steps of a source. -/
def stepTable (m : Machine) (source input : String) (n : Nat) : String :=
  if balanced source.toList then
    Table.heading ++ String.join ((m.rows source input n).map Table.line)
  else
    ""

variable {m : Machine} {control : Control} {source input : String} {n fuel : Nat} {t : State}
  {r : Except Error Report}

theorem EndsAt.runTabled_eq (hv : balanced source.toList = true)
    (h : m.EndsAt control source input n t r) (hfuel : n < fuel) (capacity : Option Nat) :
    m.runTabled control fuel source input (.empty capacity) =
      ending capacity (m.stepTable source input n) r := by
  rw [runTabled, h.execute_eq hv hfuel, Monitor.started_table, stepTable, if_pos hv]
  by_cases hfits : Fits capacity Table.heading
  · rw [write_empty_of_fits hfits]
    exact Monitor.watch_table hfits _
  · rw [write_empty_of_not_fits hfits, ending_append hfits]

theorem runTabled_of_unbalanced (hv : balanced source.toList = false) (capacity : Option Nat) :
    m.runTabled control fuel source input (.empty capacity) =
      ending capacity (m.stepTable source input n) (.error (.ofUnbalanced source.toList)) := by
  rw [runTabled, execute_of_unbalanced hv, stepTable, if_neg (by simp [hv]),
    ending_of_fits (fits_empty capacity), empty_eq_holding]

theorem EndsAt.limit_eq (hv : balanced source.toList = true) {limit : Nat}
    (h : m.EndsAt control source input n t (.error (.stepLimit limit))) : limit = n := by
  cases h.halts with
  | stopped _ ho =>
      cases Control.objection?_eq_some_iff.mp ho with
      | inl hcancelled => cases hcancelled.2
      | inr hspent =>
          obtain ⟨-, limit, hm, hle, ⟨⟩⟩ := hspent
          -- After more than `limit` steps an earlier check would have objected.
          refine Nat.le_antisymm hle (Nat.le_of_not_lt fun hlt => ?_)
          exact Nat.lt_irrefl limit (Control.lt_of_objection?_eq_none (h.allowed limit hlt) hm)
  | failed hc ho hstep =>
      have hsound := (sound_after? h.reached).1
      cases error_cases_of_balanced (Program.balanced_ofString hv) hsound hc hstep with
      | inl hstarved => cases hstarved.1
      | inr hover => cases hover.1

theorem EndsAt.steps_eq {report : Report} (h : m.EndsAt control source input n t (.ok report)) :
    report.steps = n := by
  cases h.halts with
  | finished hout => rfl

theorem exists_runTabled_eq (h : m.run control fuel source input = some r) :
    ∃ n, (balanced source.toList = true → ∃ t, m.EndsAt control source input n t r) ∧
      ∀ capacity, m.runTabled control fuel source input (.empty capacity) =
        ending capacity (m.stepTable source input n) r := by
  cases hv : balanced source.toList with
  | false =>
      rw [run_of_unbalanced hv] at h
      cases h
      exact ⟨0, by simp, runTabled_of_unbalanced hv⟩
  | true =>
      obtain ⟨n, hn, t, hend⟩ := (run_eq_some_iff_endsAt hv).mp h
      exact ⟨n, fun _ => ⟨t, hend⟩, hend.runTabled_eq hv hn⟩

theorem EndsAt.exists_lines (hv : balanced source.toList = true)
    (h : m.EndsAt control source input n t r) :
    ∃ ls, ls.length = 2 + n ∧ (∀ l ∈ ls, Text.OneLine l) ∧
      m.stepTable source input n = Text.unlines ls := by
  have hrows : (m.rows source input n).length = n := length_rowsFrom h.reached 0
  obtain ⟨ls, hlength, hls, htable⟩ := Table.exists_lines_table (m.rows source input n)
  rw [hrows] at hlength
  rw [stepTable, if_pos hv]
  exact ⟨ls, hlength, hls, htable⟩

end Machine

/-- The step table is written in addition to a run and does not change it. A sink that takes the
whole table has it in the end, and the run ends as without a table; a smaller sink has as much of
the table as it takes, and the run ends for that. The table of a balanced source consists of two
lines and one more for each step, whatever characters the source contains. -/
theorem runTabled_transparent (machine : Machine) (control : Control) (fuel : Nat)
    (source input : String) (r : Except Error Report)
    (h : machine.run control fuel source input = some r) :
    ∃ steps table, table = machine.stepTable source input steps ∧
      machine.runTabled control fuel source input (.empty none) =
        ⟨⟨none, table.toUTF8⟩, some r⟩ ∧
      (∀ capacity, table.utf8ByteSize ≤ capacity →
        machine.runTabled control fuel source input (.empty (some capacity)) =
          ⟨⟨some capacity, table.toUTF8⟩, some r⟩) ∧
      (∀ capacity, capacity < table.utf8ByteSize →
        machine.runTabled control fuel source input (.empty (some capacity)) =
          ⟨⟨some capacity, table.toUTF8.extract 0 capacity⟩,
            some (.error (.table "sink full"))⟩) ∧
      (balanced source.toList = true →
        (∃ t, machine.EndsAt control source input steps t r) ∧
        (machine.rows source input steps).length = steps ∧
        (∀ report, r = .ok report → report.steps = steps) ∧
        (∀ limit, r = .error (.stepLimit limit) → limit = steps) ∧
        table.toList.count '\n' = 2 + steps ∧
        ∃ ls, ls.length = 2 + steps ∧ (∀ l ∈ ls, '\n' ∉ l.toList) ∧
          table = Text.unlines ls) := by
  obtain ⟨steps, hends, htabled⟩ := Machine.exists_runTabled_eq h
  refine ⟨steps, _, rfl, ?_, ?_, ?_, ?_⟩
  · exact (htabled none).trans (ending_of_fits trivial)
  · intro capacity hle
    have hfits : Fits (some capacity) (machine.stepTable source input steps) := hle
    rw [htabled (some capacity), ending_of_fits hfits, holding, extract_of_size_le]
    rw [size_toUTF8]
    exact hle
  · intro capacity hless
    have hfull : ¬ Fits (some capacity) (machine.stepTable source input steps) :=
      Nat.not_le_of_lt hless
    rw [htabled (some capacity), ending, if_neg hfull, holding]
  · intro hv
    obtain ⟨t, hend⟩ := hends hv
    obtain ⟨ls, hlength, hls, htable⟩ := hend.exists_lines hv
    refine ⟨⟨t, hend⟩, length_rowsFrom hend.reached 0, ?_, ?_, ?_, ls, hlength, hls, htable⟩
    · rintro report rfl
      exact hend.steps_eq
    · rintro limit rfl
      exact hend.limit_eq hv
    · rw [htable, Text.count_newline_unlines hls, hlength]

/-- A newline between two instructions is a step of its own and takes one line. The whole table
fits exactly, and the smaller sink cuts the dot that stands for the newline in two. -/
theorem runTabled_transparent_newline :
    ∃ table, table = Machine.standard.stepTable "+\n." "" 3 ∧ table.toList.count '\n' = 5 ∧
      Machine.standard.runTabled .free 4 "+\n." "" (.empty (some 317)) =
        ⟨⟨some 317, table.toUTF8⟩, some (.ok ⟨"\x01", [1], 3⟩)⟩ ∧
      Machine.standard.runTabled .free 4 "+\n." "" (.empty (some 230)) =
        ⟨⟨some 230, table.toUTF8.extract 0 230⟩, some (.error (.table "sink full"))⟩ := by
  obtain ⟨steps, table, htable, -, hwhole, hcut, hvalid⟩ :=
    runTabled_transparent .standard .free 4 "+\n." "" (.ok ⟨"\x01", [1], 3⟩) rfl
  obtain ⟨-, -, hsteps, -, hcount, -⟩ := hvalid rfl
  obtain rfl : 3 = steps := hsteps _ rfl
  subst htable
  exact ⟨_, rfl, hcount, hwhole 317 (by decide +kernel), hcut 230 (by decide +kernel)⟩

end Brainfuck
