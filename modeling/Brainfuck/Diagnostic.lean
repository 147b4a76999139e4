import Brainfuck.Machine.Error
import Brainfuck.Text.Character
import Brainfuck.Text.Column
import Brainfuck.Text.Numeral

/-!
Diagnostics on the error stream. A position in the code is shown in three lines: what is wrong
and where, a window of the code, and a caret under the character meant.
-/

namespace Brainfuck.Diagnostic

open Text

/-- Characters shown to each side of the position. -/
def reach : Nat := 32

/-- A control character would break the alignment and is shown as a space. -/
def flat (c : Char) : Char :=
  if isControl c then ' ' else c

/-- The characters from `pos - reach` up to and including `pos + reach`, where there are any. -/
def window (code : List Char) (pos : Nat) : List Char :=
  let start := pos - reach
  ((code.drop start).take (min (pos + reach + 1) code.length - start)).map flat

/-- The three lines for a position. There are none if the end of the window is no unsigned
64-bit word. -/
def context? (headline : String) (code : List Char) (pos : Nat) : Option String :=
  if pos + reach + 1 < numeralBound then
    some (unlines
      [s!"{headline} at instruction {pos}",
       "  " ++ String.ofList (window code pos),
       "  " ++ "".pushn ' ' (min pos reach) ++ "^"])
  else
    none

def named (program : Option String) (message : String) : String :=
  match program with
  | some name => s!"{name}: {message}"
  | none => message

def unmatchedHeadline (bracket : Bracket) : String :=
  s!"Parse error: unmatched bracket {bracket.quoted}"

def machineError? (program : Option String) (code : List Char) (e : Error) : Option String :=
  match e with
  | .unmatched u => context? (named program (unmatchedHeadline u.bracket)) code u.ip
  | .inputExhausted ip => context? (named program "Runtime error: input exhausted") code ip
  | .unbalancedScan ip =>
    context? (named program "Internal error: bracket scan left the program") code ip
  | .stepLimit _ | .cancelled | .table _ | .crash _ => some (unlines [named program e.message])

/-- A failed evaluation. Aborts are one line without the program's name, and a cancelled run
has run out of time. -/
def runError? (program : Option String) (code : List Char) (timeoutMs : Nat) (e : Error) :
    Option String :=
  match e with
  | .stepLimit limit => some (unlines [s!"Execution aborted: step limit exceeded ({limit})"])
  | .cancelled =>
    some (unlines [s!"Execution aborted: wall-clock timeout exceeded ({timeoutMs} ms)"])
  | e => machineError? program code e

end Brainfuck.Diagnostic
