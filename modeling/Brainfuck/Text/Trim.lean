import Brainfuck.Text.Character

/-!
Cutting texts at their ends.
-/

namespace Brainfuck.Text

/-- The list without the longest end part that consists of `p` elements. -/
def dropEndWhile {α : Type} (p : α → Bool) (xs : List α) : List α :=
  (xs.reverse.dropWhile p).reverse

/-- The list without the longest parts at both ends that consist of `p` elements. -/
def stripWhile {α : Type} (p : α → Bool) (xs : List α) : List α :=
  dropEndWhile p (xs.dropWhile p)

def trim (cs : List Char) : List Char :=
  stripWhile isBlank cs

def dropLastIf {α : Type} [BEq α] (a : α) (xs : List α) : List α :=
  if xs.getLast? == some a then xs.dropLast else xs

end Brainfuck.Text
