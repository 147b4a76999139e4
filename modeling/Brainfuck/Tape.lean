import Std.Data.ExtTreeMap

/-!
The sparse memory tape. Positions are signed, so an unbounded tape extends to both sides of
its first cell; a bounded one is a circle. A cell that was never written reads as zero, and
zero is never stored. Two tapes of one size that store the same cells are equal.

Positions and arguments are whole numbers of a signed 64-bit word. An operation that would
leave that range, or that writes at a position outside the circle, is refused with `none`.
-/

namespace Brainfuck

/-- The largest number of a signed 64-bit word: one less than the 63rd power of two. -/
def wordMax : Nat := 0x7FFFFFFFFFFFFFFF

def fitsWord (n : Int) : Bool :=
  -wordMax - 1 ≤ n && n ≤ wordMax

/-- One past the last code point: cells count modulo this number. -/
def cellModulus : Nat := 0x110000

/-- The number brought into `[0, boundary)` by its Euclidean remainder, or unchanged when the
boundary is zero. A boundary above `wordMax` counts as `wordMax`: a head that moves one cell at
a time never gets that far. -/
def bound (n : Int) (boundary : Nat) : Int :=
  if boundary = 0 then n else n.emod (min boundary wordMax : Nat)

/-- A tape of `size` cells in a circle, or an unbounded one when the size is zero. -/
structure Tape where
  size : Nat
  cells : Std.ExtTreeMap Int Nat

namespace Tape

def blank (size : Nat) : Tape :=
  ⟨size, ∅⟩

def wrap (t : Tape) (position : Int) : Int :=
  bound position t.size

def get (t : Tape) (position : Int) : Nat :=
  t.cells.getD position 0

def materialized (t : Tape) : Nat :=
  t.cells.size

/-- Stores the value as it stands; a zero clears the cell. -/
def put (t : Tape) (position : Int) (value : Nat) : Tape :=
  { t with cells := if value = 0 then t.cells.erase position else t.cells.insert position value }

/-- Stores a value reduced into the cell range. Refused at a position outside the circle. -/
def set? (t : Tape) (position value : Int) : Option Tape :=
  if t.wrap position = position then some (t.put position (bound value cellModulus).toNat) else none

/-- Adds to a cell, modulo the cell range, and tells its new value. Refused when the plain sum is
no word, or at a position outside the circle. -/
def add? (t : Tape) (position delta : Int) : Option (Tape × Nat) :=
  let sum := t.get position + delta
  if fitsWord sum then (t.set? position sum).map fun t => (t, t.get position) else none

end Tape
end Brainfuck
