/-!
Matching of loop brackets in a source text. Only the two brackets matter here and positions
count characters. The check reads the text once with a depth; the locator keeps the positions
of the loops still open, innermost first, and is only asked when the check has failed.
-/

namespace Brainfuck

inductive Bracket where
  | opening
  | closing
deriving DecidableEq

def Bracket.quoted : Bracket → String
  | .opening => "'['"
  | .closing => "']'"

structure Unmatched where
  ip : Nat
  bracket : Bracket
deriving DecidableEq

/-- With `depth` loops open, every closing bracket of the text has a loop to close and none
stays open. -/
def balancedFrom : (depth : Nat) → List Char → Bool
  | depth, [] => depth == 0
  | depth, '[' :: rest => balancedFrom (depth + 1) rest
  | 0, ']' :: _ => false
  | depth + 1, ']' :: rest => balancedFrom depth rest
  | depth, _ :: rest => balancedFrom depth rest

def balanced (source : List Char) : Bool :=
  balancedFrom 0 source

/-- Reads on from position `ip` with the positions of the open loops, innermost first. -/
def unmatchedFrom? : (ip : Nat) → (opened : List Nat) → List Char → Option Unmatched
  | _, opened, [] => opened.head?.map (⟨·, .opening⟩)
  | ip, opened, '[' :: rest => unmatchedFrom? (ip + 1) (ip :: opened) rest
  | ip, [], ']' :: _ => some ⟨ip, .closing⟩
  | ip, _ :: outer, ']' :: rest => unmatchedFrom? (ip + 1) outer rest
  | ip, opened, _ :: rest => unmatchedFrom? (ip + 1) opened rest

/-- The first closing bracket that closes nothing; failing that, the innermost loop that is
never closed. -/
def unmatched? (source : List Char) : Option Unmatched :=
  unmatchedFrom? 0 [] source

end Brainfuck
