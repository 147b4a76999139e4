/-!
The eight instructions. A program is any text: a character that spells no instruction
still occupies a position and is passed over when it is reached.
-/

namespace Brainfuck

inductive Instruction where
  | right
  | left
  | increment
  | decrement
  | write
  | read
  | loopOpen
  | loopClose
deriving DecidableEq

def Instruction.ofChar? : Char → Option Instruction
  | '>' => some .right
  | '<' => some .left
  | '+' => some .increment
  | '-' => some .decrement
  | '.' => some .write
  | ',' => some .read
  | '[' => some .loopOpen
  | ']' => some .loopClose
  | _ => none

def isInstruction (c : Char) : Bool :=
  (Instruction.ofChar? c).isSome

end Brainfuck
