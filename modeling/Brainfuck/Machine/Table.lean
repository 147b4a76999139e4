import Brainfuck.Machine.Run
import Brainfuck.Text.Character
import Brainfuck.Text.Column
import Brainfuck.Text.Numeral

/-!
The step table: a heading of two lines, then one line per executed instruction. It is written
to a sink that may be limited to a number of bytes; the first byte beyond the limit fails the
write, and what fitted stays.
-/

namespace Brainfuck

open Text

def Action.description : Action → String
  | .moved head => s!"Moved head to position {head}"
  | .changed before after => s!"Changed cell from {before} to {after}"
  | .wrote codePoint => s!"Output code point {hex codePoint}"
  | .took codePoint => s!"Read code point {hex codePoint} from input"
  | .skippedLoop close => s!"Cell is 0; skip forward to matching ']' at IP {close}"
  | .enteredLoop => "Enter loop (cell != 0)"
  | .jumpedBack opening => s!"Jump back to matching '[' at IP {opening}"
  | .ignored => "Not an instruction"

namespace Table

def heading : String :=
  unlines
    ["STEP | IP   | HEAD | CELL    | INSTR | ACTION",
     "-----+------+------+---------+-------+------------------------------------------------"]

/-- A control character would break the line and is shown as a dot. -/
def printable (c : Char) : Char :=
  if isControl c then '·' else c

def line (row : Row) : String :=
  let number := padRight 4 (toString row.number)
  let ip := padRight 4 (toString row.ip)
  let head := padRight 4 (toString row.head)
  let cell := padRight 7 (toString row.cell)
  let char := (printable row.char).toString
  s!"{number} | {ip} | {head} | {cell} |  {char}    | {row.action.description}\n"

end Table

/-- Bytes written so far and the number that may be written in all, if limited. -/
structure Sink where
  capacity : Option Nat
  written : ByteArray

namespace Sink

def empty (capacity : Option Nat) : Sink :=
  ⟨capacity, .empty⟩

/-- Writes a text, or as many of its bytes as still fit. -/
def write (sink : Sink) (text : String) : Sink × Option Error :=
  let bytes := text.toUTF8
  match sink.capacity with
  | none => ({ sink with written := sink.written ++ bytes }, none)
  | some capacity =>
    let room := capacity - sink.written.size
    if bytes.size ≤ room then
      ({ sink with written := sink.written ++ bytes }, none)
    else
      -- What still fits is kept, also where this cuts a character.
      ({ sink with written := sink.written ++ bytes.extract 0 room }, some (.table "sink full"))

def textBefore? (sink : Sink) (cut : Nat) : Option String :=
  String.fromUTF8? (sink.written.extract 0 (sink.written.size - cut))

/-- The written bytes as text. A character that was cut short, which leaves at most three of its
bytes, shows as a replacement character. -/
def text (sink : Sink) : String :=
  match sink.textBefore? 0 with
  | some whole => whole
  | none => (([1, 2, 3].findSome? sink.textBefore?).getD "").push '\uFFFD'

end Sink

def Monitor.table : Monitor Sink where
  started sink := sink.write Table.heading
  executed sink row := sink.write (Table.line row)

def Machine.runTabled (m : Machine) (control : Control) (fuel : Nat) (source input : String)
    (sink : Sink) : Ending Sink :=
  m.execute control .table fuel source input sink

end Brainfuck
