import Brainfuck.Machine.Step
import Mathlib.Logic.Function.Basic
import Brainfuck.Proofs.Blocks

/-!
What one instruction does to the memory of a run, brackets apart. The memory is seen as a total
function from positions to cell values, which count modulo the number of code points and need
no stored zeros. A state is sound when its head is on the tape and its cells are in range, and
after so many steps the head of an unbounded tape is at most that far from its first cell.
On sound states an instruction that is no bracket does to the memory what it should; it fails
for want of input, and otherwise only when the head leaves the signed word.
-/

namespace Brainfuck

def Instruction.char : Instruction → Char
  | right => '>'
  | left => '<'
  | increment => '+'
  | decrement => '-'
  | write => '.'
  | read => ','
  | loopOpen => '['
  | loopClose => ']'

theorem Instruction.ofChar?_eq_some_iff {c : Char} {i : Instruction} :
    ofChar? c = some i ↔ c = i.char := by
  constructor
  · intro h
    unfold ofChar? at h
    split at h <;> cases h <;> rfl
  · rintro rfl
    cases i <;> rfl

theorem fitsWord_iff (n : Int) : fitsWord n = true ↔ -wordMax - 1 ≤ n ∧ n ≤ wordMax := by
  simp [fitsWord]

instance : @NeZero Nat Zero.ofOfNat0 cellModulus :=
  ⟨Nat.succ_ne_zero _⟩

theorem toNat_lt_cellModulus (c : Char) : c.toNat < cellModulus := by
  have hvalid : c.toNat < 0xD800 ∨ 0xDFFF < c.toNat ∧ c.toNat < 0x110000 := c.valid
  rw [cellModulus]
  omega

theorem bound_of_pos {boundary : Nat} (h : 0 < boundary) (n : Int) :
    0 ≤ bound n boundary ∧ bound n boundary < min boundary wordMax := by
  have hpos : 0 < min boundary wordMax := by
    rw [wordMax]
    omega
  rw [bound, if_neg (by omega)]
  exact ⟨Int.emod_nonneg _ (by omega), Int.emod_lt_of_pos _ (by omega)⟩

theorem bound_bound (n : Int) (boundary : Nat) :
    bound (bound n boundary) boundary = bound n boundary := by
  unfold bound
  split
  · rfl
  · exact Int.emod_emod_of_dvd n (Int.dvd_refl _)

theorem bound_bound_add (n delta : Int) (boundary : Nat) :
    bound (bound n boundary + delta) boundary = bound (n + delta) boundary := by
  unfold bound
  split
  · rfl
  · exact Int.emod_add_emod n _ delta

/-- Numbers nearer to each other than the length of the circle are brought to different places. -/
theorem eq_of_bound_eq {m n : Int} {boundary : Nat} (hpos : 0 < boundary)
    (h : bound m boundary = bound n boundary) (hnear : (m - n).natAbs < min boundary wordMax) :
    m = n := by
  rw [bound, bound, if_neg (by omega), if_neg (by omega)] at h
  have hdvd : ((min boundary wordMax : Nat) : Int) ∣ m - n :=
    Int.dvd_of_emod_eq_zero (Int.emod_eq_emod_iff_emod_sub_eq_zero.mp h)
  have hzero : m - n = 0 := Int.eq_zero_of_dvd_of_natAbs_lt_natAbs hdvd hnear
  omega

namespace Tape

theorem wrap_wrap (t : Tape) (position : Int) : t.wrap (t.wrap position) = t.wrap position :=
  bound_bound position t.size

theorem wrap_of_unbounded {t : Tape} (h : t.size = 0) (position : Int) :
    t.wrap position = position := by
  rw [wrap, bound, if_pos h]

theorem get_blank (size : Nat) (position : Int) : (blank size).get position = 0 := by
  simp [get, blank]

theorem get_put (t : Tape) (position q : Int) (value : Nat) :
    (t.put position value).get q = if q = position then value else t.get q := by
  by_cases hv : value = 0
  · simp only [put, get, hv, if_true, Std.ExtTreeMap.getD_erase]
    simp [eq_comm (a := q)]
  · simp only [put, get, hv, if_false, Std.ExtTreeMap.getD_insert]
    simp [eq_comm (a := q)]

theorem set?_eq_some {t : Tape} {position : Int} (h : t.wrap position = position) (value : Int) :
    t.set? position value = some (t.put position (value % cellModulus).toNat) := by
  rw [set?, if_pos h]
  rfl

theorem add?_eq_some {t : Tape} {position : Int} (h : t.wrap position = position)
    (hcell : t.get position < cellModulus) {delta : Int} (hdelta : delta = 1 ∨ delta = -1) :
    t.add? position delta =
      some (t.put position ((t.get position + delta) % cellModulus).toNat,
        ((t.get position + delta) % cellModulus).toNat) := by
  have hfits : fitsWord (t.get position + delta) = true := by
    rw [fitsWord_iff, wordMax]
    rw [cellModulus] at hcell
    omega
  rw [add?, if_pos hfits, set?_eq_some h, Option.map_some, get_put, if_pos rfl]

end Tape

/-- The memory of a run without the place in the program: every position of the tape has a
value, and output stands in the order it was written. -/
structure Memory where
  cells : Int → Fin cellModulus
  head : Int
  pending : List Char
  output : List Nat

namespace Memory

def initial (input : List Char) : Memory :=
  { cells := fun _ => 0, head := 0, pending := input, output := [] }

def cell (m : Memory) : Fin cellModulus :=
  m.cells m.head

def store (m : Memory) (value : Fin cellModulus) : Memory :=
  { m with cells := Function.update m.cells m.head value }

/-- What a character that is no bracket does on a tape of the given size. A read without
pending input does nothing and is refused. -/
def perform? (size : Nat) (m : Memory) (c : Char) : Option Memory :=
  match c with
  | '>' => some { m with head := bound (m.head + 1) size }
  | '<' => some { m with head := bound (m.head - 1) size }
  | '+' => some (m.store (m.cell + 1))
  | '-' => some (m.store (m.cell - 1))
  | '.' => some { m with output := m.output ++ [m.cell.val] }
  | ',' =>
    match m.pending with
    | [] => none
    | c :: rest => some { m.store (Fin.ofNat cellModulus c.toNat) with pending := rest }
  | _ => some m

/-- The characters that do something here are those that the machine reads as instructions. -/
theorem perform?_eq (size : Nat) (m : Memory) (c : Char) :
    m.perform? size c =
      match Instruction.ofChar? c with
      | some .right => some { m with head := bound (m.head + 1) size }
      | some .left => some { m with head := bound (m.head - 1) size }
      | some .increment => some (m.store (m.cell + 1))
      | some .decrement => some (m.store (m.cell - 1))
      | some .write => some { m with output := m.output ++ [m.cell.val] }
      | some .read =>
        match m.pending with
        | [] => none
        | c :: rest => some { m.store (Fin.ofNat cellModulus c.toNat) with pending := rest }
      | _ => some m := by
  cases hi : Instruction.ofChar? c with
  | some i =>
      obtain rfl := Instruction.ofChar?_eq_some_iff.mp hi
      cases i <;> rfl
  | none =>
      unfold perform?
      split
      case h_7 => rfl
      all_goals cases hi

end Memory

namespace State

def memory (s : State) : Memory where
  cells q := Fin.ofNat cellModulus (s.tape.get q)
  head := s.head
  pending := s.pending
  output := s.output

/-- What holds of a state after the given number of steps. -/
structure Sound (steps : Nat) (s : State) : Prop where
  normal : s.tape.wrap s.head = s.head
  near : s.tape.size = 0 → s.head.natAbs ≤ steps
  small : ∀ q, s.tape.get q < cellModulus

theorem sound_initial (size : Nat) (input : List Char) : (initial size input).Sound 0 where
  normal := by
    change bound 0 size = 0
    unfold bound
    split
    · rfl
    · exact Int.zero_emod _
  near _ := by simp [initial]
  small q := by simp [initial, Tape.get_blank, cellModulus]

theorem memory_initial (size : Nat) (input : List Char) :
    (initial size input).memory = Memory.initial input := by
  simp [memory, initial, Memory.initial, Tape.get_blank, output]

theorem val_memory_cell {s : State} {k : Nat} (hs : s.Sound k) : s.memory.cell.val = s.cell :=
  Nat.mod_eq_of_lt (hs.small s.head)

theorem memory_cell_eq_zero {s : State} {k : Nat} (hs : s.Sound k) :
    s.memory.cell = 0 ↔ s.cell = 0 := by
  rw [← val_memory_cell hs, Fin.ext_iff]
  rfl

/-- Only the head of an unbounded tape can come near the ends of the signed word. -/
theorem Sound.fits_move {s : State} {k : Nat} (hs : s.Sound k) {delta : Int}
    (hdelta : delta = 1 ∨ delta = -1) (h : s.tape.size = 0 → k < wordMax) :
    fitsWord (s.head + delta) = true := by
  rw [fitsWord_iff]
  by_cases hsize : s.tape.size = 0
  · have hnear := hs.near hsize
    have hk := h hsize
    omega
  · have hbound := bound_of_pos (Nat.pos_of_ne_zero hsize) s.head
    rw [show bound s.head s.tape.size = s.head from hs.normal] at hbound
    rw [wordMax] at *
    omega

/-- What a character that is no bracket does to a state; the program around it plays no part. -/
def perform (s : State) (c : Char) : Attempt :=
  match Instruction.ofChar? c with
  | some .right => s.moveBy 1
  | some .left => s.moveBy (-1)
  | some .increment => s.changeBy 1
  | some .decrement => s.changeBy (-1)
  | some .write => s.writeCell
  | some .read => s.readCell
  | _ => s.advance .ignored

/-- The attempt went through: it left a sound state one position further with the memory `m`. -/
def Leaves (attempt : Attempt) (s : State) (steps : Nat) (m : Memory) : Prop :=
  ∃ t action, attempt = (t, .ok action) ∧ t.memory = m ∧ t.ip = s.ip + 1 ∧
    t.tape.size = s.tape.size ∧ t.Sound (steps + 1)

theorem moveBy_cases {s : State} {k : Nat} (hs : s.Sound k) {delta : Int}
    (hdelta : delta = 1 ∨ delta = -1) :
    Leaves (s.moveBy delta) s k
        { s.memory with head := bound (s.head + delta) s.tape.size } ∨
      s.moveBy delta = s.fail (.crash .headOverflow) ∧ s.tape.size = 0 ∧ wordMax ≤ k := by
  by_cases hfits : fitsWord (s.head + delta) = true
  · left
    have hmove : s.moveBy delta =
        ({ s with head := s.tape.wrap (s.head + delta), ip := s.ip + 1 },
          .ok (.moved (s.tape.wrap (s.head + delta)))) := by
      rw [moveBy, if_pos hfits]
      rfl
    refine ⟨_, _, hmove, rfl, rfl, rfl, Tape.wrap_wrap _ _, ?_, hs.small⟩
    intro hsize
    have hnear := hs.near hsize
    simp only [Tape.wrap_of_unbounded hsize]
    omega
  · right
    refine ⟨by rw [moveBy, if_neg hfits], ?_⟩
    by_contra h
    exact hfits (hs.fits_move hdelta (by omega))

theorem Sound.put {s : State} {k : Nat} (hs : s.Sound k) (value : Nat) (hv : value < cellModulus)
    (pending : List Char) (ip : Nat) :
    State.Sound (k + 1)
      { s with tape := s.tape.put s.head value, pending := pending, ip := ip } where
  normal := hs.normal
  near hsize := Nat.le_succ_of_le (hs.near hsize)
  small q := by
    simp only [Tape.get_put]
    split
    · exact hv
    · exact hs.small q

theorem memory_put (s : State) (value : Nat) (pending : List Char) (ip : Nat) :
    State.memory { s with tape := s.tape.put s.head value, pending := pending, ip := ip } =
      { s.memory.store (Fin.ofNat cellModulus value) with pending := pending } := by
  simp only [memory, Memory.store, Memory.mk.injEq, output, and_self, and_true]
  funext q
  by_cases hq : q = s.head <;> simp [Tape.get_put, hq]

theorem changeBy_leaves {s : State} {k : Nat} (hs : s.Sound k) {delta : Int}
    (hdelta : delta = 1 ∨ delta = -1) :
    Leaves (s.changeBy delta) s k
      (s.memory.store (Fin.ofNat cellModulus ((s.cell + delta) % cellModulus).toNat)) := by
  have hadd := Tape.add?_eq_some hs.normal (hs.small s.head) hdelta
  refine ⟨_, _, by rw [changeBy, hadd]; rfl, memory_put s _ s.pending _, rfl, rfl, hs.put _ ?_ _ _⟩
  rw [cellModulus]
  omega

theorem writeCell_leaves {s : State} {k : Nat} (hs : s.Sound k) :
    Leaves s.writeCell s k { s.memory with output := s.memory.output ++ [s.memory.cell.val] } := by
  refine ⟨_, _, rfl, ?_, rfl, rfl, hs.normal, ?_, hs.small⟩
  · rw [val_memory_cell hs]
    simp [memory, output]
  · intro hsize
    exact Nat.le_succ_of_le (hs.near hsize)

theorem readCell_leaves {s : State} {k : Nat} (hs : s.Sound k) {c : Char} {rest : List Char}
    (hp : s.pending = c :: rest) :
    Leaves s.readCell s k
      { s.memory.store (Fin.ofNat cellModulus c.toNat) with pending := rest } := by
  have hc := toNat_lt_cellModulus c
  have hset := Tape.set?_eq_some hs.normal c.toNat
  have hval : ((c.toNat : Int) % cellModulus).toNat = c.toNat := by
    rw [cellModulus] at *
    omega
  rw [hval] at hset
  refine ⟨_, _, by rw [readCell, hp]; simp only [hset]; rfl, memory_put s _ rest _, rfl, rfl,
    hs.put _ hc _ _⟩

theorem readCell_nil {s : State} (hp : s.pending = []) :
    s.readCell = s.fail (.inputExhausted s.ip) := by
  rw [readCell, hp]

theorem ofNat_cell_add {s : State} {k : Nat} (hs : s.Sound k) :
    Fin.ofNat cellModulus (((s.cell : Int) + 1) % cellModulus).toNat = s.memory.cell + 1 ∧
      Fin.ofNat cellModulus (((s.cell : Int) + -1) % cellModulus).toNat = s.memory.cell - 1 := by
  have hcell := val_memory_cell hs
  have hsmall : s.cell < cellModulus := hs.small s.head
  have hone : (1 : Fin cellModulus).val = 1 := rfl
  constructor
  · apply Fin.ext
    rw [Fin.val_add, hcell, hone]
    change _ % cellModulus = _
    rw [cellModulus] at *
    omega
  · apply Fin.ext
    rw [Fin.val_sub, hcell, hone]
    change _ % cellModulus = _
    rw [cellModulus] at *
    omega

/-- On a sound state the character does to the memory what it should, unless it asks for input
that is not there or moves the head of an unbounded tape out of the signed word. -/
theorem perform_cases {s : State} {k : Nat} (hs : s.Sound k) (c : Char) :
    (∃ m, s.memory.perform? s.tape.size c = some m ∧ Leaves (s.perform c) s k m) ∨
    (s.memory.perform? s.tape.size c = none ∧ c = ',' ∧
      s.perform c = s.fail (.inputExhausted s.ip)) ∨
    (s.perform c = s.fail (.crash .headOverflow) ∧ s.tape.size = 0 ∧ wordMax ≤ k) := by
  rw [Memory.perform?_eq]
  unfold perform
  split
  · next =>
    rcases moveBy_cases hs (.inl rfl) with h | h
    · exact .inl ⟨_, rfl, h⟩
    · exact .inr (.inr h)
  · next =>
    rcases moveBy_cases hs (.inr rfl) with h | h
    · exact .inl ⟨_, rfl, h⟩
    · exact .inr (.inr h)
  · next =>
    refine .inl ⟨_, rfl, ?_⟩
    rw [← (ofNat_cell_add hs).1]
    exact changeBy_leaves hs (.inl rfl)
  · next =>
    refine .inl ⟨_, rfl, ?_⟩
    rw [← (ofNat_cell_add hs).2]
    exact changeBy_leaves hs (.inr rfl)
  · exact .inl ⟨_, rfl, writeCell_leaves hs⟩
  · next hread =>
    cases hp : s.pending with
    | nil =>
        have hc := Instruction.ofChar?_eq_some_iff.mp hread
        exact .inr (.inl ⟨by simp [memory, hp], hc, readCell_nil hp⟩)
    | cons d rest =>
        refine .inl ⟨_, ?_, readCell_leaves hs hp⟩
        rw [show s.memory.pending = d :: rest from hp]
  · refine .inl ⟨_, rfl, _, _, rfl, rfl, rfl, rfl, hs.normal, ?_, hs.small⟩
    intro hsize
    exact Nat.le_succ_of_le (hs.near hsize)

end State
end Brainfuck
