import Brainfuck.Proofs.Structured
import Mathlib.Algebra.GroupWithZero.Nat

/-!
A program that adds up its input. It counts the characters to read in its first cell. In every
round it reads one into the second cell, carries it over to the third cell unit by unit, and counts
down. Cells are given here as plain numbers that need not be below the number of code points: a
cell holds what such a number leaves, and only a cell that a loop tests has to be exact.

Main statement: the program writes the sum of the characters, or it fails at its read if there are
too few of them.
-/

namespace Brainfuck

theorem ofNat_succ (n : Nat) : Fin.ofNat cellModulus (n + 1) = Fin.ofNat cellModulus n + 1 := by
  apply Fin.ext
  have hone : (1 : Fin cellModulus).val = 1 := rfl
  rw [Fin.val_add, hone]
  simp

theorem ofNat_succ_sub_one (n : Nat) :
    Fin.ofNat cellModulus (n + 1) - 1 = Fin.ofNat cellModulus n := by
  apply Fin.ext
  have hone : (1 : Fin cellModulus).val = 1 := rfl
  rw [Fin.val_sub, hone]
  change (cellModulus - 1 + (n + 1) % cellModulus) % cellModulus = n % cellModulus
  rw [cellModulus]
  omega

namespace Memory

/-- The memory whose cells hold the numbers given, before anything is written. -/
def holding (numbers : Int → Nat) (head : Int) (pending : List Char) : Memory where
  cells q := Fin.ofNat cellModulus (numbers q)
  head := head
  pending := pending
  output := []

variable {size : Nat} {numbers : Int → Nat} {head : Int} {pending : List Char}

theorem store_holding (n : Nat) :
    (holding numbers head pending).store (Fin.ofNat cellModulus n) =
      holding (Function.update numbers head n) head pending := by
  simp only [store, holding, Memory.mk.injEq, and_self, and_true]
  funext q
  by_cases hq : q = head <;> simp [hq]

/-- Near its first cell a tape of three cells or more is like an unbounded one. -/
theorem bound_of_three (hsize : size = 0 ∨ 3 ≤ size) {n : Int} (hn : 0 ≤ n ∧ n < 3) :
    bound n size = n := by
  rw [bound]
  split
  · rfl
  · exact Int.emod_eq_of_lt hn.1 (by rw [wordMax]; omega)

theorem perform?_right (hsize : size = 0 ∨ 3 ≤ size) (h : 0 ≤ head + 1 ∧ head + 1 < 3) :
    (holding numbers head pending).perform? size '>' =
      some (holding numbers (head + 1) pending) := by
  rw [← bound_of_three hsize h]
  rfl

theorem perform?_left (hsize : size = 0 ∨ 3 ≤ size) (h : 0 ≤ head - 1 ∧ head - 1 < 3) :
    (holding numbers head pending).perform? size '<' =
      some (holding numbers (head - 1) pending) := by
  rw [← bound_of_three hsize h]
  rfl

theorem perform?_increment :
    (holding numbers head pending).perform? size '+' =
      some (holding (Function.update numbers head (numbers head + 1)) head pending) := by
  rw [← store_holding, ofNat_succ]
  rfl

theorem perform?_decrement {n : Nat} (h : numbers head = n + 1) :
    (holding numbers head pending).perform? size '-' =
      some (holding (Function.update numbers head n) head pending) := by
  rw [← store_holding, ← ofNat_succ_sub_one, ← h]
  rfl

theorem perform?_read (c : Char) :
    (holding numbers head (c :: pending)).perform? size ',' =
      some (holding (Function.update numbers head c.toNat) head pending) := by
  rw [← store_holding]
  rfl

theorem cell_holding_eq_zero (h : numbers head = 0) : (holding numbers head pending).cell = 0 := by
  simp [cell, holding, h]

theorem cell_holding_ne_zero {n : Nat} (h : numbers head = n + 1) (hn : n + 1 < cellModulus) :
    (holding numbers head pending).cell ≠ 0 := by
  intro hcell
  have hval := congrArg Fin.val hcell
  simp [cell, holding, h, Nat.mod_eq_of_lt hn] at hval

end Memory

open Memory

/-- Numbers in the first three cells and nothing in the others. -/
def three (x y z : Nat) (position : Int) : Nat :=
  if position = 0 then x else if position = 1 then y else if position = 2 then z else 0

theorem update_three_zero (x y z n : Nat) : Function.update (three x y z) 0 n = three n y z := by
  funext q
  by_cases hq : q = 0 <;> simp [three, hq]

theorem update_three_one (x y z n : Nat) : Function.update (three x y z) 1 n = three x n z := by
  funext q
  by_cases hq : q = 1 <;> simp [three, hq]

theorem update_three_two (x y z n : Nat) : Function.update (three x y z) 2 n = three x y n := by
  funext q
  by_cases hq : q = 2 <;> simp [three, hq]

theorem initial_eq_holding (input : List Char) :
    Memory.initial input = holding (three 0 0 0) 0 input := by
  simp [Memory.initial, holding, three]

/-- Carries one unit from the cell under the head to the next one. -/
def carryUnit : Block :=
  .leaf '>' (by decide) (.leaf '+' (by decide) (.leaf '<' (by decide) (.leaf '-' (by decide)
    .done)))

/-- Goes back and counts down. -/
def countDown : Block :=
  .leaf '<' (by decide) (.leaf '-' (by decide) .done)

/-- One round: reads a character, carries it over and counts down. -/
def addNext : Block :=
  .leaf '>' (by decide) (.leaf ',' (by decide) (.loop carryUnit countDown))

/-- Writes the third cell. -/
def writeSum : Block :=
  .leaf '>' (by decide) (.leaf '>' (by decide) (.leaf '.' (by decide) .done))

def increments : Nat → Block → Block
  | 0, rest => rest
  | n + 1, rest => .leaf '+' (by decide) (increments n rest)

/-- The block of the program that sums `n` characters. -/
def sumBlock (n : Nat) : Block :=
  increments n (.loop addNext writeSum)

section Rounds

variable {size : Nat} (hsize : size = 0 ∨ 3 ≤ size) {x y z : Nat} {pending : List Char}
  {rest : Block} {m : Memory} {cost : Nat}
include hsize

theorem evaluates_carryUnit :
    Evaluates size carryUnit (holding (three x (y + 1) z) 1 pending)
      (holding (three x y (z + 1)) 1 pending) 4 := by
  have hright : (holding (three x (y + 1) z) 1 pending).perform? size '>' =
      some (holding (three x (y + 1) z) 2 pending) := perform?_right hsize (by decide)
  have hup : (holding (three x (y + 1) z) 2 pending).perform? size '+' =
      some (holding (three x (y + 1) (z + 1)) 2 pending) := by
    rw [perform?_increment, update_three_two]
    rfl
  have hleft : (holding (three x (y + 1) (z + 1)) 2 pending).perform? size '<' =
      some (holding (three x (y + 1) (z + 1)) 1 pending) := perform?_left hsize (by decide)
  have hdown : (holding (three x (y + 1) (z + 1)) 1 pending).perform? size '-' =
      some (holding (three x y (z + 1)) 1 pending) := by
    rw [perform?_decrement rfl, update_three_one]
  exact .leaf hright (.leaf hup (.leaf hleft (.leaf hdown (.done _))))

/-- The inner loop empties the second cell into the third. -/
theorem evaluates_carry (hy : y < cellModulus)
    (h : Evaluates size rest (holding (three x 0 (z + y)) 1 pending) m cost) :
    Evaluates size (.loop carryUnit rest) (holding (three x y z) 1 pending) m
      (6 * y + (cost + 1)) := by
  -- What the two cells hold together is the same before every round.
  induction y generalizing z with
  | zero =>
      rw [Nat.mul_zero, Nat.zero_add]
      exact .exit (cell_holding_eq_zero rfl) h
  | succ y ih =>
      have hcost : 6 * (y + 1) + (cost + 1) = 4 + 2 + (6 * y + (cost + 1)) := by omega
      have hsum : z + (y + 1) = z + 1 + y := by omega
      rw [hsum] at h
      rw [hcost]
      exact .again (cell_holding_ne_zero rfl hy) (evaluates_carryUnit hsize)
        (ih (by omega) h)

/-- One round adds the character read to the third cell. -/
theorem evaluates_addNext (c : Char) :
    Evaluates size addNext (holding (three (x + 1) y z) 0 (c :: pending))
      (holding (three x 0 (z + c.toNat)) 0 pending) (6 * c.toNat + 5) := by
  have hright : (holding (three (x + 1) y z) 0 (c :: pending)).perform? size '>' =
      some (holding (three (x + 1) y z) 1 (c :: pending)) := perform?_right hsize (by decide)
  have hread : (holding (three (x + 1) y z) 1 (c :: pending)).perform? size ',' =
      some (holding (three (x + 1) c.toNat z) 1 pending) := by
    rw [perform?_read, update_three_one]
  have hleft : (holding (three (x + 1) 0 (z + c.toNat)) 1 pending).perform? size '<' =
      some (holding (three (x + 1) 0 (z + c.toNat)) 0 pending) := perform?_left hsize (by decide)
  have hdown : (holding (three (x + 1) 0 (z + c.toNat)) 0 pending).perform? size '-' =
      some (holding (three x 0 (z + c.toNat)) 0 pending) := by
    rw [perform?_decrement rfl, update_three_zero]
  have hcount : Evaluates size countDown (holding (three (x + 1) 0 (z + c.toNat)) 1 pending)
      (holding (three x 0 (z + c.toNat)) 0 pending) 2 := .leaf hleft (.leaf hdown (.done _))
  exact .leaf hright (.leaf hread (evaluates_carry hsize (toNat_lt_cellModulus c) hcount))

/-- The outer loop adds up as many characters as the first cell counts. -/
theorem evaluates_rounds {chars : List Char} (hlength : chars.length < cellModulus)
    (h : Evaluates size rest (holding (three 0 0 ((chars.map Char.toNat).sum + z)) 0 pending) m
      cost) :
    Evaluates size (.loop addNext rest) (holding (three chars.length 0 z) 0 (chars ++ pending)) m
      (7 * chars.length + 6 * (chars.map Char.toNat).sum + (cost + 1)) := by
  induction chars generalizing z with
  | nil =>
      rw [List.map_nil, List.sum_nil, Nat.zero_add] at h
      rw [List.length_nil, List.map_nil, List.sum_nil, Nat.mul_zero, Nat.mul_zero, Nat.zero_add]
      exact .exit (cell_holding_eq_zero rfl) h
  | cons c chars ih =>
      rw [List.map_cons, List.sum_cons] at h ⊢
      rw [List.length_cons] at hlength ⊢
      generalize (chars.map Char.toNat).sum = total at *
      have hsum : c.toNat + total + z = total + (z + c.toNat) := by omega
      have hcost : 7 * (chars.length + 1) + 6 * (c.toNat + total) + (cost + 1) =
          6 * c.toNat + 5 + 2 + (7 * chars.length + 6 * total + (cost + 1)) := by omega
      rw [hsum] at h
      rw [hcost]
      exact .again (cell_holding_ne_zero rfl hlength) (evaluates_addNext hsize c)
        (ih (by omega) h)

/-- With too few characters the outer loop gets stuck at its read, two places behind the bracket. -/
theorem starves_rounds {chars : List Char} {n : Nat} (hn : n < cellModulus)
    (hfew : chars.length < n) :
    Starves size (.loop addNext rest) (holding (three n 0 z) 0 chars) 2
      (7 * chars.length + 6 * (chars.map Char.toNat).sum + 2) := by
  induction chars generalizing n z with
  | nil =>
      obtain ⟨n, rfl⟩ := Nat.exists_eq_succ_of_ne_zero (Nat.ne_of_gt hfew)
      have hright : (holding (three (n + 1) 0 z) 0 []).perform? size '>' =
          some (holding (three (n + 1) 0 z) 1 []) := perform?_right hsize (by decide)
      exact .body (cell_holding_ne_zero rfl hn) (.leaf hright (.here rfl))
  | cons c chars ih =>
      obtain ⟨n, rfl⟩ := Nat.exists_eq_succ_of_ne_zero (Nat.ne_zero_of_lt hfew)
      rw [List.map_cons, List.sum_cons, List.length_cons]
      have hrest := ih (z := z + c.toNat) (Nat.lt_of_succ_lt hn) (Nat.lt_of_succ_lt_succ hfew)
      generalize (chars.map Char.toNat).sum = total at *
      have hcost : 7 * (chars.length + 1) + 6 * (c.toNat + total) + 2 =
          6 * c.toNat + 5 + 2 + (7 * chars.length + 6 * total + 2) := by omega
      rw [hcost]
      exact .again (cell_holding_ne_zero rfl hn) (evaluates_addNext hsize c) hrest

theorem evaluates_writeSum :
    Evaluates size writeSum (holding (three 0 0 z) 0 pending)
      { holding (three 0 0 z) 2 pending with output := [z % cellModulus] } 3 := by
  have hone : (holding (three 0 0 z) 0 pending).perform? size '>' =
      some (holding (three 0 0 z) 1 pending) := perform?_right hsize (by decide)
  have htwo : (holding (three 0 0 z) 1 pending).perform? size '>' =
      some (holding (three 0 0 z) 2 pending) := perform?_right hsize (by decide)
  exact .leaf hone (.leaf htwo (.leaf rfl (.done _)))

omit hsize

theorem perform?_count : (holding (three x y z) 0 pending).perform? size '+' =
    some (holding (three (x + 1) y z) 0 pending) := by
  rw [perform?_increment, update_three_zero]
  rfl

theorem evaluates_increments {n : Nat}
    (h : Evaluates size rest (holding (three (n + x) y z) 0 pending) m cost) :
    Evaluates size (increments n rest) (holding (three x y z) 0 pending) m (cost + n) := by
  induction n generalizing x with
  | zero =>
      rw [Nat.zero_add] at h
      exact h
  | succ n ih =>
      have hnext : n + 1 + x = n + (x + 1) := by omega
      rw [hnext] at h
      exact .leaf perform?_count (ih h)

theorem starves_increments {n place : Nat}
    (h : Starves size rest (holding (three (n + x) y z) 0 pending) place cost) :
    Starves size (increments n rest) (holding (three x y z) 0 pending) (place + n) (cost + n) := by
  induction n generalizing x with
  | zero =>
      rw [Nat.zero_add] at h
      exact h
  | succ n ih =>
      have hnext : n + 1 + x = n + (x + 1) := by omega
      rw [hnext] at h
      exact .leaf perform?_count (ih h)

end Rounds

/-- The program that sums `n` characters. -/
def summing (n : Nat) : String :=
  .ofList (List.replicate n '+' ++ "[>,[>+<-]<-]>>.".toList)

theorem text_increments (n : Nat) (rest : Block) :
    (increments n rest).text = List.replicate n '+' ++ rest.text := by
  induction n with
  | zero => rfl
  | succ n ih => rw [increments, Block.text, ih, List.replicate_succ, List.cons_append]

theorem text_sumBlock (n : Nat) : (sumBlock n).text = (summing n).toList := by
  rw [sumBlock, text_increments, summing, String.toList_ofList]
  rfl

theorem sum_toNat_le (chars : List Char) :
    (chars.map Char.toNat).sum ≤ chars.length * cellModulus := by
  induction chars with
  | nil => simp
  | cons c chars ih =>
      have hc := toNat_lt_cellModulus c
      rw [List.map_cons, List.sum_cons, List.length_cons, Nat.succ_mul]
      omega

/-- A sum of fewer characters than a cell counts is carried over long before the head could leave
its word. -/
theorem cost_fits {chars : List Char} {n : Nat} (hlength : chars.length ≤ n)
    (hn : n < cellModulus) :
    8 * n + 6 * (chars.map Char.toNat).sum + 4 ≤ wordMax := by
  have hsum := sum_toNat_le chars
  have hproduct := Nat.mul_le_mul_right cellModulus hlength
  rw [cellModulus] at *
  rw [wordMax]
  omega

/-- The sum of the first `n` characters. -/
def sumOf (n : Nat) (input : String) : Nat :=
  ((input.toList.take n).map Char.toNat).sum

section Answers

variable {machine : Machine} (hsize : machine.tapeSize = 0 ∨ 3 ≤ machine.tapeSize) {n : Nat}
  (hn : n < cellModulus) {input : String}
include hsize hn

theorem answers_summing (henough : n ≤ input.toList.length) :
    machine.Answers .free (summing n) input
      (.ok ⟨.ofList [codePointChar (sumOf n input % cellModulus)],
        [sumOf n input % cellModulus], 8 * n + 6 * sumOf n input + 4⟩) := by
  have hlength : (input.toList.take n).length = n := List.length_take_of_le henough
  have hwrite : Evaluates machine.tapeSize writeSum
      (holding (three 0 0 (sumOf n input + 0)) 0 (input.toList.drop n)) _ 3 :=
    evaluates_writeSum hsize
  have hrounds := evaluates_rounds hsize (by rwa [hlength]) hwrite
  rw [hlength, List.take_append_drop] at hrounds
  have heval := evaluates_increments (x := 0) hrounds
  have hcost : 7 * n + 6 * sumOf n input + (3 + 1) + n = 8 * n + 6 * sumOf n input + 4 := by omega
  rw [← initial_eq_holding, ← sumOf, hcost] at heval
  exact Machine.answers_of_evaluates (text_sumBlock n) heval
    (cost_fits (Nat.le_of_eq hlength) hn)

theorem answers_summing_starved (hfew : input.toList.length < n) :
    machine.Answers .free (summing n) input (.error (.inputExhausted (n + 2))) := by
  have hrounds : Starves machine.tapeSize (.loop addNext writeSum)
      (holding (three n 0 0) 0 input.toList) 2 _ := starves_rounds hsize hn hfew
  have hstarve := starves_increments (x := 0) hrounds
  rw [← initial_eq_holding, Nat.add_comm 2 n] at hstarve
  refine Machine.answers_of_starves (text_sumBlock n) hstarve ?_
  have hfits := cost_fits (Nat.le_of_lt hfew) hn
  omega

end Answers

/-- The program sums every input. With as many characters as it counts it writes their sum and
nothing else, whatever they are: a character without units skips the inner loop, and a sum beyond
the last code point wraps. With fewer characters it fails at its read. -/
theorem summing_sums (machine : Machine)
    (hsize : machine.tapeSize = 0 ∨ 3 ≤ machine.tapeSize) (n : Nat) (hn : n < cellModulus)
    (input : String) :
    (n ≤ input.toList.length →
      machine.Answers .free (summing n) input
        (.ok ⟨.ofList [codePointChar (sumOf n input % cellModulus)],
          [sumOf n input % cellModulus], 8 * n + 6 * sumOf n input + 4⟩)) ∧
      (input.toList.length < n →
        machine.Answers .free (summing n) input (.error (.inputExhausted (n + 2)))) :=
  ⟨answers_summing hsize hn, answers_summing_starved hsize hn⟩

/-- The last code point, a character without units and a letter, whose sum wraps; an input that
ends too early; and no character to read at all. -/
theorem summing_sums_wrapped :
    summing 3 = "+++[>,[>+<-]<-]>>." ∧ 3 < cellModulus ∧
      Machine.Answers ⟨3, 0⟩ .free (summing 3)
        (.ofList [Char.ofNat 0x10FFFF, Char.ofNat 0, 'b', 'c']) (.ok ⟨"a", [97], 6685282⟩) ∧
      Machine.Answers ⟨3, 0⟩ .free (summing 3) "ab" (.error (.inputExhausted 5)) ∧
      Machine.standard.Answers .free (summing 0) "" (.ok ⟨"\x00", [0], 4⟩) := by
  have hsize : Machine.tapeSize ⟨3, 0⟩ = 0 ∨ 3 ≤ Machine.tapeSize ⟨3, 0⟩ := .inr (by decide)
  have hn : 3 < cellModulus := by decide
  refine ⟨rfl, hn, ?_, ?_, ?_⟩
  · exact (summing_sums _ hsize 3 hn _).1 (by decide)
  · exact (summing_sums _ hsize 3 hn _).2 (by decide)
  · exact (summing_sums _ (.inl rfl) 0 (by decide) _).1 (by decide)

end Brainfuck
