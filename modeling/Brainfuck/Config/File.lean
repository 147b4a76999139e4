import Brainfuck.Config.Settings
import Brainfuck.Text.Numeral
import Brainfuck.Text.Pieces
import Brainfuck.Text.Quoted
import Brainfuck.Text.Trim

/-!
The config file. It is read line by line: a comment runs from the first number sign to the end
of the line, a name in square brackets starts a section, and only the assignments of the section
`machine` count. The first bad value of a known key is the error; otherwise the last assignment
of a key wins. Lines of any other form are passed over.
-/

namespace Brainfuck.Config

open Text

/-- A known key with a value that is no number, and the line it stands on, counted from one. -/
structure InvalidValue where
  key : Key
  value : String
  line : Nat
deriving DecidableEq

def InvalidValue.message (e : InvalidValue) : String :=
  s!"invalid value for '{e.key.name}' on line {e.line}: {quoted e.value} (expected a non-negative integer)"

/-- A line up to its comment, without the blanks around it. -/
def clean (line : List Char) : List Char :=
  trim (line.takeWhile (· != '#'))

def heading? (cleaned : List Char) : Option (List Char) :=
  if cleaned.head? == some '[' && cleaned.getLast? == some ']' then
    some (cleaned.drop 1).dropLast
  else
    none

/-- Key and value around the first equals sign. Quotes around the value are dropped. -/
def assignment? (cleaned : List Char) : Option (List Char × List Char) :=
  if cleaned.contains '=' then
    let key := cleaned.takeWhile (· != '=')
    let value := (cleaned.dropWhile (· != '=')).drop 1
    some (trim key, stripWhile (· == '"') (trim value))
  else
    none

/-- The number of a config value. Underscores may stand anywhere in it. -/
def readValue? (value : List Char) : Option Nat :=
  readNumeral? (value.filter (· != '_'))

/-- What the lines read so far amount to: whether they ended in the section that counts, and the
values they assigned. -/
structure Progress where
  inMachine : Bool
  layer : Layer

def readLine (number : Nat) (p : Progress) (line : List Char) : Except InvalidValue Progress :=
  let cleaned := clean line
  match heading? cleaned with
  | some inside => .ok { p with inMachine := String.ofList (trim inside) = "machine" }
  | none =>
    if p.inMachine then
      match assignment? cleaned with
      -- Neither a line that assigns nothing nor one with a key that is not known is an error.
      | none => .ok p
      | some (name, value) =>
        match Key.ofName? (String.ofList name) with
        | none => .ok p
        | some key =>
          match readValue? value with
          | some n => .ok { p with layer := p.layer.set key n }
          | none => .error ⟨key, String.ofList value, number⟩
    else
      .ok p

def readLines : (number : Nat) → Progress → List (List Char) → Except InvalidValue Progress
  | _, p, [] => .ok p
  | number, p, line :: rest =>
    match readLine number p line with
    | .error e => .error e
    | .ok p => readLines (number + 1) p rest

def parse (content : String) : Except InvalidValue Layer :=
  (readLines 1 ⟨false, .empty⟩ (lines content.toList)).map (·.layer)

end Brainfuck.Config
