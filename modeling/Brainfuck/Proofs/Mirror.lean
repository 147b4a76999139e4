import Brainfuck.Proofs.Lockstep

/-!
Mirrored programs: every move to the right is one to the left and every move to the left one to the
right. A program and its mirror image run in lockstep with their heads on opposite cells, and each
finds on its cell what the other finds on the opposite one. On the unbounded tape the opposite of a
position is its negative; on a circle it is the remainder of that, so the first cell is its own
opposite, and no cell has two.

Main statement: a program and its mirror image give the same result.
-/

namespace Brainfuck

def Instruction.mirror : Instruction → Instruction
  | right => left
  | left => right
  | i => i

/-- The two moves exchanged; every other character stays. -/
def mirrorChar (c : Char) : Char :=
  if c = '>' then '<' else if c = '<' then '>' else c

def mirrored (source : String) : String :=
  .ofList (source.toList.map mirrorChar)

theorem ofChar?_mirrorChar (c : Char) :
    Instruction.ofChar? (mirrorChar c) = (Instruction.ofChar? c).map Instruction.mirror := by
  cases hi : Instruction.ofChar? c with
  | some i =>
      obtain rfl := Instruction.ofChar?_eq_some_iff.mp hi
      cases i <;> rfl
  | none =>
      have hright : c ≠ '>' := by
        rintro rfl
        cases hi
      have hleft : c ≠ '<' := by
        rintro rfl
        cases hi
      rw [mirrorChar, if_neg hright, if_neg hleft, hi]
      rfl

theorem keepsBrackets_mirrorChar : KeepsBrackets mirrorChar where
  opening := rfl
  closing := rfl
  plain c hc := by
    unfold mirrorChar
    split
    · decide
    · split
      · decide
      · exact hc

/-- The cell as far from the first one as the given cell, on its other side. -/
def opposite (size : Nat) (position : Int) : Int :=
  bound (-position) size

theorem opposite_bound (size : Nat) (n : Int) : opposite size (bound n size) = opposite size n := by
  unfold opposite bound
  split
  · rfl
  · rw [← Int.zero_sub, ← Int.zero_sub]
    exact Int.sub_emod_emod 0 n _

theorem opposite_opposite {size : Nat} {q : Int} (hq : bound q size = q) :
    opposite size (opposite size q) = q := by
  rw [opposite.eq_1 size q, opposite_bound, opposite, Int.neg_neg, hq]

theorem eq_of_opposite_eq {size : Nat} {q q' : Int} (hq : bound q size = q)
    (hq' : bound q' size = q') (h : opposite size q = opposite size q') : q = q' := by
  rw [← opposite_opposite hq, ← opposite_opposite hq', h]

theorem opposite_move (size : Nat) (n delta : Int) :
    bound (opposite size n - delta) size = opposite size (bound (n + delta) size) := by
  rw [opposite_bound, opposite, opposite, Int.sub_eq_add_neg, bound_bound_add, Int.neg_add]

namespace Memory

/-- The memories hold the same on opposite cells, and the heads are on opposite cells. -/
structure Mirrors (size : Nat) (m m' : Memory) : Prop where
  pending : m'.pending = m.pending
  output : m'.output = m.output
  normal : bound m.head size = m.head
  head : m'.head = opposite size m.head
  cells : ∀ q, bound q size = q → m'.cells (opposite size q) = m.cells q

variable {size : Nat} {m m' : Memory}

theorem mirrors_initial (size : Nat) (input : List Char) :
    Mirrors size (initial input) (initial input) := by
  have hzero : bound 0 size = 0 := (State.sound_initial size input).normal
  exact ⟨rfl, rfl, hzero, hzero.symm, fun _ _ => rfl⟩

theorem Mirrors.cell_eq (h : Mirrors size m m') : m'.cell = m.cell := by
  rw [cell, h.head, h.cells m.head h.normal]
  rfl

theorem Mirrors.move (h : Mirrors size m m') (delta : Int) :
    Mirrors size { m with head := bound (m.head + delta) size }
      { m' with head := bound (m'.head - delta) size } :=
  { h with
    normal := bound_bound _ _
    head := by
      rw [h.head]
      exact opposite_move size m.head delta }

theorem Mirrors.store (h : Mirrors size m m') (value : Fin cellModulus) :
    Mirrors size (m.store value) (m'.store value) where
  pending := h.pending
  output := h.output
  normal := h.normal
  head := h.head
  cells q hq := by
    simp only [Memory.store, h.head]
    by_cases hhead : q = m.head
    · rw [hhead, Function.update_self, Function.update_self]
    · have hother : opposite size q ≠ opposite size m.head := by
        intro heq
        exact hhead (eq_of_opposite_eq hq h.normal heq)
      rw [Function.update_of_ne hother, Function.update_of_ne hhead]
      exact h.cells q hq

theorem Mirrors.take (h : Mirrors size m m') (pending : List Char) :
    Mirrors size { m with pending := pending } { m' with pending := pending } :=
  { h with pending := rfl }

theorem Mirrors.write (h : Mirrors size m m') :
    Mirrors size { m with output := m.output ++ [m.cell.val] }
      { m' with output := m'.output ++ [m'.cell.val] } :=
  { h with output := by rw [h.cell_eq, h.output] }

theorem Mirrors.perform (h : Mirrors size m m') (c : Char) :
    (∃ n n', m.perform? size c = some n ∧ m'.perform? size (mirrorChar c) = some n' ∧
        Mirrors size n n') ∨
      m.perform? size c = none ∧ m'.perform? size (mirrorChar c) = none := by
  rw [perform?_eq, perform?_eq, ofChar?_mirrorChar]
  cases Instruction.ofChar? c with
  | none => exact .inl ⟨_, _, rfl, rfl, h⟩
  | some i =>
      cases i with
      | right => exact .inl ⟨_, _, rfl, rfl, h.move 1⟩
      | left => exact .inl ⟨_, _, rfl, rfl, h.move (-1)⟩
      | increment =>
          refine .inl ⟨_, _, rfl, rfl, ?_⟩
          rw [h.cell_eq]
          exact h.store (m.cell + 1)
      | decrement =>
          refine .inl ⟨_, _, rfl, rfl, ?_⟩
          rw [h.cell_eq]
          exact h.store (m.cell - 1)
      | write => exact .inl ⟨_, _, rfl, rfl, h.write⟩
      | read =>
          simp only [Option.map_some, Instruction.mirror, h.pending]
          cases m.pending with
          | nil => exact .inr ⟨rfl, rfl⟩
          | cons d rest => exact .inl ⟨_, _, rfl, rfl, (h.store _).take rest⟩
      | loopOpen => exact .inl ⟨_, _, rfl, rfl, h⟩
      | loopClose => exact .inl ⟨_, _, rfl, rfl, h⟩

theorem lockstep_mirrors (size limit : Nat) :
    Lockstep mirrorChar size size limit fun _ => Mirrors size where
  initial := mirrors_initial size
  cell h := h.cell_eq
  output h := h.output
  wait h := h
  perform _ h c := h.perform c

end Memory

/-- A program and its mirror image give the same result on every tape, under every budget of steps
that a signed word can count. -/
theorem run_mirrored (machine : Machine) (source input : String) (n fuel : Nat)
    (hn : n ≤ wordMax) (hfuel : n < fuel) :
    ∃ r, machine.run (.budget n) fuel (mirrored source) input = some r ∧
      machine.run (.budget n) fuel source input = some r :=
  Machine.exists_run_budget_of_lockstep (Memory.lockstep_mirrors machine.tapeSize n)
    keepsBrackets_mirrorChar String.toList_ofList hn hfuel

/-- Around a circle of three cells, from the far end of the largest tape, and at a bracket too many
behind exchanged moves. -/
theorem run_mirrored_three :
    mirrored "<+>>>." = ">+<<<." ∧ mirrored "><]" = "<>]" ∧ 6 ≤ wordMax ∧
      Machine.run ⟨3, 0⟩ (.budget 6) 7 ">+<<<." "" = some (.ok ⟨"\x01", [1], 6⟩) ∧
      Machine.run ⟨18446744073709551615, 0⟩ (.budget 6) 7 ">+<<<." "" =
        some (.ok ⟨"\x00", [0], 6⟩) ∧
      Machine.run ⟨0, 0⟩ (.budget 6) 7 "<>]" "" = some (.error (.unmatched ⟨2, .closing⟩)) := by
  have hmoves : mirrored "<+>>>." = ">+<<<." := by decide
  have hbracket : mirrored "><]" = "<>]" := by decide
  refine ⟨hmoves, hbracket, by decide, ?_, ?_, ?_⟩
  · obtain ⟨r, hmirror, hr⟩ := run_mirrored ⟨3, 0⟩ "<+>>>." "" 6 7 (by decide) (by decide)
    rw [← hmoves, hmirror, ← hr]
    rfl
  · obtain ⟨r, hmirror, hr⟩ :=
      run_mirrored ⟨18446744073709551615, 0⟩ "<+>>>." "" 6 7 (by decide) (by decide)
    rw [← hmoves, hmirror, ← hr]
    rfl
  · obtain ⟨r, hmirror, hr⟩ := run_mirrored ⟨0, 0⟩ "><]" "" 6 7 (by decide) (by decide)
    rw [← hbracket, hmirror, ← hr]
    rfl

end Brainfuck
