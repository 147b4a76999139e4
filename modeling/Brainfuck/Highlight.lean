/-!
Colouring of a line of source. Every character has a style; a line is cut into the longest runs
of one style.
-/

namespace Brainfuck.Highlight

structure Style where
  red : Nat
  green : Nat
  blue : Nat
  bold : Bool
deriving DecidableEq

/-- Moves are sky and teal, changes green and red, transfers yellow and peach, loops mauve, and
comments grey without weight. -/
def styleOf : Char → Style
  | '>' => ⟨137, 220, 235, true⟩
  | '<' => ⟨148, 226, 213, true⟩
  | '+' => ⟨166, 227, 161, true⟩
  | '-' => ⟨243, 139, 168, true⟩
  | '.' => ⟨249, 226, 175, true⟩
  | ',' => ⟨250, 179, 135, true⟩
  | '[' => ⟨203, 166, 247, true⟩
  | ']' => ⟨203, 166, 247, true⟩
  | _ => ⟨108, 112, 134, false⟩

structure Run where
  style : Style
  text : List Char
deriving DecidableEq

/-- A line that is being cut: the runs that are done and the one that may still grow. -/
structure Cutting where
  done : List Run
  current : Option Run

namespace Cutting

def flush (k : Cutting) : List Run :=
  k.done ++ k.current.toList

/-- A character of the current run's style lengthens it; any other begins a new run. -/
def push (k : Cutting) (c : Char) : Cutting :=
  let style := styleOf c
  match k.current with
  | some run =>
    if run.style = style then { k with current := some { run with text := run.text ++ [c] } }
    else ⟨k.flush, some ⟨style, [c]⟩⟩
  | none => ⟨k.flush, some ⟨style, [c]⟩⟩

end Cutting

/-- The runs of a line. The position of the cursor plays no part. -/
def highlight (line : List Char) (_cursor : Nat) : List Run :=
  (line.foldl Cutting.push ⟨[], none⟩).flush

end Brainfuck.Highlight
