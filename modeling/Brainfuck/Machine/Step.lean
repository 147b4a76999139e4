import Brainfuck.Instruction
import Brainfuck.Machine.Error
import Brainfuck.Program
import Brainfuck.Tape

/-!
The state of a run and the execution of one instruction. A step answers with the state it
leaves behind and either the action it took or the reason why it failed.
-/

namespace Brainfuck

/-- Everything that changes while a program runs. Output is collected newest first. -/
structure State where
  tape : Tape
  head : Int
  ip : Nat
  pending : List Char
  written : List Nat

/-- Blank tape, head on cell zero, the whole input pending. -/
def State.initial (tapeSize : Nat) (input : List Char) : State :=
  { tape := .blank tapeSize, head := 0, ip := 0, pending := input, written := [] }

def State.cell (s : State) : Nat :=
  s.tape.get s.head

def State.output (s : State) : List Nat :=
  s.written.reverse

inductive Action where
  | moved (head : Int)
  | changed (before after : Nat)
  | wrote (codePoint : Nat)
  | took (codePoint : Nat)
  | skippedLoop (close : Nat)
  | enteredLoop
  | jumpedBack (opening : Nat)
  | ignored
deriving DecidableEq

/-- The state after an attempted step, with the action taken or the reason of the failure. -/
abbrev Attempt := State × Except Error Action

namespace State

def fail (s : State) (e : Error) : Attempt :=
  (s, .error e)

def advance (s : State) (action : Action) : Attempt :=
  ({ s with ip := s.ip + 1 }, .ok action)

def moveBy (s : State) (delta : Int) : Attempt :=
  let target := s.head + delta
  if fitsWord target then
    let head := s.tape.wrap target
    { s with head := head }.advance (.moved head)
  else
    s.fail (.crash .headOverflow)

def changeBy (s : State) (delta : Int) : Attempt :=
  let before := s.cell
  match s.tape.add? s.head delta with
  | some (tape, after) => { s with tape := tape }.advance (.changed before after)
  | none => s.fail (.crash .cellRefused)

def writeCell (s : State) : Attempt :=
  let codePoint := s.cell
  { s with written := codePoint :: s.written }.advance (.wrote codePoint)

def readCell (s : State) : Attempt :=
  match s.pending with
  -- Nothing has changed yet when the input turns out to be used up.
  | [] => s.fail (.inputExhausted s.ip)
  | c :: rest =>
    match s.tape.set? s.head c.toNat with
    | some tape => { s with tape := tape, pending := rest }.advance (.took c.toNat)
    | none => s.fail (.crash .cellRefused)

/-- An opening bracket over a zero cell goes past its loop, otherwise into it. -/
def enterOrSkip (program : Program) (s : State) : Attempt :=
  if s.cell = 0 then
    match program.close? s.ip with
    | some close => ({ s with ip := close + 1 }, .ok (.skippedLoop close))
    | none => s.fail (.unbalancedScan s.ip)
  else
    s.advance .enteredLoop

/-- A closing bracket always lands on its opening one, which tests the cell again. -/
def jumpBack (program : Program) (s : State) : Attempt :=
  match program.open? s.ip with
  | some opening => ({ s with ip := opening }, .ok (.jumpedBack opening))
  | none => s.fail (.unbalancedScan s.ip)

end State

def step (program : Program) (s : State) : Attempt :=
  match program[s.ip]? with
  | none => s.fail (.crash .outsideProgram)
  | some c =>
    match Instruction.ofChar? c with
    | some .right => s.moveBy 1
    | some .left => s.moveBy (-1)
    | some .increment => s.changeBy 1
    | some .decrement => s.changeBy (-1)
    | some .write => s.writeCell
    | some .read => s.readCell
    | some .loopOpen => s.enterOrSkip program
    | some .loopClose => s.jumpBack program
    | none => s.advance .ignored

end Brainfuck
