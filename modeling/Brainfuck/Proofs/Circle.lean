import Brainfuck.Proofs.Lockstep

/-!
Runs on a circular tape beside runs on the unbounded one. While a run takes fewer steps than the
circle has cells, the positions it has visited lie in a window that is shorter than the circle.
Rolled up around the circle, such a window meets no cell twice: what stands on the circle is what
stands in the window, and everything else is blank on both tapes. A move past an end of the window
widens it by the one cell it enters.

Main statement: a circle longer than the run is unobservable.
-/

namespace Brainfuck
namespace Memory

/-- The circle holds the window of the line from `first` to `last`, rolled up; outside the window
the line is blank, and so are the cells of the circle that the window does not cover. -/
structure Rolls (size : Nat) (first last : Int) (line circle : Memory) : Prop where
  pending : circle.pending = line.pending
  output : circle.output = line.output
  head : circle.head = bound line.head size
  first_le : first ≤ line.head
  le_last : line.head ≤ last
  covered : ∀ q, first ≤ q → q ≤ last → circle.cells (bound q size) = line.cells q
  outside : ∀ q, q < first ∨ last < q → line.cells q = 0
  uncovered : ∀ q, (∀ q', first ≤ q' → q' ≤ last → bound q' size ≠ q) → circle.cells q = 0

variable {size : Nat} {first last : Int} {line circle : Memory}

theorem rolls_initial (size : Nat) (input : List Char) :
    Rolls size 0 0 (initial input) (initial input) where
  pending := rfl
  output := rfl
  head := by
    change 0 = bound 0 size
    unfold bound
    split
    · rfl
    · exact (Int.zero_emod _).symm
  first_le := Int.le_refl 0
  le_last := Int.le_refl 0
  covered _ _ _ := rfl
  outside _ _ := rfl
  uncovered _ _ := rfl

theorem Rolls.cell_eq (h : Rolls size first last line circle) : circle.cell = line.cell := by
  rw [cell, h.head, h.covered _ h.first_le h.le_last]
  rfl

theorem Rolls.widen (h : Rolls size first last line circle) (hsize : 0 < size)
    {first' last' : Int} (hfirst : first' ≤ first) (hlast : last ≤ last')
    (hshort : last' - first' < min size wordMax) : Rolls size first' last' line circle where
  pending := h.pending
  output := h.output
  head := h.head
  first_le := Int.le_trans hfirst h.first_le
  le_last := Int.le_trans h.le_last hlast
  covered q hq hq' := by
    by_cases hin : first ≤ q ∧ q ≤ last
    · exact h.covered q hin.1 hin.2
    · -- A cell entered by the window is blank on both tapes: no cell of the old window is rolled
      -- onto it, because the new one is still shorter than the circle.
      rw [h.outside q (by omega)]
      apply h.uncovered
      intro q' hfirst' hlast' heq
      have hsame := eq_of_bound_eq hsize heq (by omega)
      omega
  outside q hq := h.outside q (by omega)
  uncovered q hq := by
    apply h.uncovered
    intro q' hfirst' hlast'
    exact hq q' (by omega) (by omega)

theorem Rolls.move (h : Rolls size first last line circle) (delta : Int)
    (hfirst : first ≤ line.head + delta) (hlast : line.head + delta ≤ last) :
    Rolls size first last { line with head := bound (line.head + delta) 0 }
      { circle with head := bound (circle.head + delta) size } where
  pending := h.pending
  output := h.output
  head := by
    rw [h.head, bound_bound_add]
    rfl
  first_le := hfirst
  le_last := hlast
  covered := h.covered
  outside := h.outside
  uncovered := h.uncovered

theorem Rolls.store (h : Rolls size first last line circle) (hsize : 0 < size)
    (hshort : last - first < min size wordMax) (value : Fin cellModulus) :
    Rolls size first last (line.store value) (circle.store value) where
  pending := h.pending
  output := h.output
  head := h.head
  first_le := h.first_le
  le_last := h.le_last
  covered q hq hq' := by
    have hfirst := h.first_le
    have hlast := h.le_last
    by_cases hhead : q = line.head
    · rw [hhead, Memory.store, Memory.store, h.head]
      simp
    · have hother : bound q size ≠ bound line.head size := by
        intro heq
        exact hhead (eq_of_bound_eq hsize heq (by omega))
      rw [Memory.store, Memory.store, h.head]
      simp only [Function.update_of_ne hother, Function.update_of_ne hhead]
      exact h.covered q hq hq'
  outside q hq := by
    have hfirst := h.first_le
    have hlast := h.le_last
    have hhead : q ≠ line.head := by omega
    rw [Memory.store]
    simp only [Function.update_of_ne hhead]
    exact h.outside q hq
  uncovered q hq := by
    have hhead : q ≠ circle.head := by
      rw [h.head]
      exact (hq line.head h.first_le h.le_last).symm
    rw [Memory.store]
    simp only [Function.update_of_ne hhead]
    exact h.uncovered q hq

theorem Rolls.take (h : Rolls size first last line circle) (pending : List Char) :
    Rolls size first last { line with pending := pending } { circle with pending := pending } :=
  { h with pending := rfl }

theorem Rolls.write (h : Rolls size first last line circle) :
    Rolls size first last { line with output := line.output ++ [line.cell.val] }
      { circle with output := circle.output ++ [circle.cell.val] } :=
  { h with output := by rw [h.cell_eq, h.output] }

/-- The two memories do the same with a character: something, after which the window is at most
one cell wider, or nothing. -/
theorem Rolls.perform (h : Rolls size first last line circle) (hsize : 0 < size)
    (hshort : last - first + 1 < min size wordMax) (c : Char) :
    (∃ line' circle' first' last', line.perform? 0 c = some line' ∧
        circle.perform? size c = some circle' ∧ Rolls size first' last' line' circle' ∧
        last' - first' ≤ last - first + 1) ∨
      line.perform? 0 c = none ∧ circle.perform? size c = none := by
  have hfirst := h.first_le
  have hlast := h.le_last
  have hstore (value : Fin cellModulus) := h.store hsize (by omega) value
  rw [perform?_eq, perform?_eq]
  cases hi : Instruction.ofChar? c with
  | none => exact .inl ⟨_, _, first, last, rfl, rfl, h, by omega⟩
  | some i =>
      cases i with
      | right =>
          have hwide := h.widen hsize (Int.le_refl first)
            (show last ≤ max last (line.head + 1) by omega) (by omega)
          exact .inl ⟨_, _, _, _, rfl, rfl, hwide.move 1 (by omega) (by omega), by omega⟩
      | left =>
          have hwide := h.widen hsize (show min first (line.head - 1) ≤ first by omega)
            (Int.le_refl last) (by omega)
          exact .inl ⟨_, _, _, _, rfl, rfl, hwide.move (-1) (by omega) (by omega), by omega⟩
      | increment =>
          refine .inl ⟨_, _, first, last, rfl, rfl, ?_, by omega⟩
          rw [h.cell_eq]
          exact hstore (line.cell + 1)
      | decrement =>
          refine .inl ⟨_, _, first, last, rfl, rfl, ?_, by omega⟩
          rw [h.cell_eq]
          exact hstore (line.cell - 1)
      | write => exact .inl ⟨_, _, first, last, rfl, rfl, h.write, by omega⟩
      | read =>
          simp only [h.pending]
          cases line.pending with
          | nil => exact .inr ⟨rfl, rfl⟩
          | cons d rest =>
              exact .inl ⟨_, _, first, last, rfl, rfl, (hstore _).take rest, by omega⟩
      | loopOpen => exact .inl ⟨_, _, first, last, rfl, rfl, h, by omega⟩
      | loopClose => exact .inl ⟨_, _, first, last, rfl, rfl, h, by omega⟩

/-- The window has grown by at most one cell a step. -/
theorem lockstep_rolls {limit : Nat} (hlimit : limit < min size wordMax) :
    Lockstep id 0 size limit fun k line circle =>
      ∃ first last : Int, last - first ≤ k ∧ Rolls size first last line circle where
  initial input := ⟨0, 0, Int.le_refl 0, rolls_initial size input⟩
  cell := by
    rintro k line circle ⟨first, last, -, h⟩
    exact h.cell_eq
  output := by
    rintro k line circle ⟨first, last, -, h⟩
    exact h.output
  wait := by
    rintro k line circle ⟨first, last, hshort, h⟩
    exact ⟨first, last, by omega, h⟩
  perform := by
    rintro k line circle hk ⟨first, last, hshort, h⟩ c
    rcases h.perform (by omega) (by omega) c with
      ⟨line', circle', first', last', hline, hcircle, h', hshort'⟩ | hnone
    · exact .inl ⟨line', circle', hline, hcircle, first', last', by omega, h'⟩
    · exact .inr hnone

end Memory

theorem keepsBrackets_id : KeepsBrackets id where
  opening := rfl
  closing := rfl
  plain _ hc := hc

/-- A circle longer than the run is unobservable: under a budget of fewer steps than the circle
has cells, a source ends on it exactly as on the unbounded tape. -/
theorem run_circle_eq_line (size loopMax loopMax' : Nat) (source input : String) (n fuel : Nat)
    (hn : n < min size wordMax) (hfuel : n < fuel) :
    ∃ r, Machine.run ⟨size, loopMax⟩ (.budget n) fuel source input = some r ∧
      Machine.run ⟨0, loopMax'⟩ (.budget n) fuel source input = some r :=
  Machine.exists_run_budget_of_lockstep (Memory.lockstep_rolls hn) keepsBrackets_id
    (List.map_id _).symm (by omega) hfuel

/-- A circle of nine cells, entered from its far end by a run of eight steps, and the largest
circle. -/
theorem run_circle_eq_line_nine :
    8 < min 9 wordMax ∧ 8 < min 18446744073709551615 wordMax ∧
      Machine.run ⟨9, 0⟩ (.budget 8) 9 "<+>>-<<." "" = some (.ok ⟨"\x01", [1], 8⟩) ∧
      Machine.run ⟨18446744073709551615, 0⟩ (.budget 8) 9 "<+>>-<<." "" =
        some (.ok ⟨"\x01", [1], 8⟩) := by
  have hline : Machine.run ⟨0, 0⟩ (.budget 8) 9 "<+>>-<<." "" = some (.ok ⟨"\x01", [1], 8⟩) := rfl
  refine ⟨by decide, by decide, ?_, ?_⟩
  · obtain ⟨r, hcircle, hr⟩ :=
      run_circle_eq_line 9 0 0 "<+>>-<<." "" 8 9 (by decide) (by decide)
    rw [hcircle, ← hr, hline]
  · obtain ⟨r, hcircle, hr⟩ :=
      run_circle_eq_line 18446744073709551615 0 0 "<+>>-<<." "" 8 9 (by decide) (by decide)
    rw [hcircle, ← hr, hline]

end Brainfuck
