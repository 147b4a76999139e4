import Brainfuck.Files
import Brainfuck.Instruction
import Brainfuck.Text.Pieces
import Brainfuck.Text.Trim

/-!
A submission is a source, optionally followed by a line that holds only an exclamation mark and
then the input of the program. The input keeps its line breaks except the one that ends the
submission.
-/

namespace Brainfuck

open Text

structure Submission where
  source : List Char
  input : List Char
deriving DecidableEq

namespace Submission

def isLineBreak (c : Char) : Bool :=
  c == '\r' || c == '\n'

def isSeparator (line : List Char) : Bool :=
  dropEndWhile isLineBreak line == ['!']

/-- The text without the line break that ends it. -/
def dropFinalBreak (cs : List Char) : List Char :=
  dropLastIf '\r' (dropLastIf '\n' cs)

def ofLines (ls : List (List Char)) : Submission where
  source := (ls.takeWhile (!isSeparator ·)).flatten
  input := dropFinalBreak ((ls.dropWhile (!isSeparator ·)).drop 1).flatten

/-- Splits a buffer at its first separator line. -/
def parse (buffer : List Char) : Submission :=
  ofLines (lines buffer)

def hasInstructions (s : Submission) : Bool :=
  s.source.any isInstruction

/-- Takes bytes line by line until they end. There is nothing to take from no bytes, and none
from bytes with a line that is not text. -/
def read? (bytes : List UInt8) : Option String :=
  match (pieces (· == 0x0A) bytes).mapM decodeText? with
  | none => none
  | some texts =>
    let text := String.join texts
    if text = "" then none else some text

end Submission

/-- Takes the whole of the standard input as text. A terminal is not read. -/
def readInput (terminal : Bool) (bytes : List UInt8) : Except ReadError String :=
  if terminal then .ok "" else decodeText bytes

end Brainfuck
