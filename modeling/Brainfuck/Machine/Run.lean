import Brainfuck.Machine.Step

/-!
Whole runs. A run checks its control before every instruction, executes it, and reports it to
a monitor, which may end the run. Runs need not end, so they are driven by fuel: one unit per
instruction and one for the end. More fuel never changes an answer that was already reached.
-/

namespace Brainfuck

/-- The limits of a run: an optional budget of instructions, and for every check the answer
whether the cancel flag is seen raised by then. -/
structure Control where
  maxSteps : Option Nat
  cancelled : Nat → Bool

namespace Control

def free : Control :=
  ⟨none, fun _ => false⟩

/-- The check made before the instruction after the first `steps`. A raised flag wins over a
used-up budget. -/
def objection? (control : Control) (steps : Nat) : Option Error :=
  if control.cancelled steps then
    some .cancelled
  else
    match control.maxSteps with
    | some limit => if limit ≤ steps then some (.stepLimit limit) else none
    | none => none

end Control

/-- One executed instruction: its number, where and on what it was executed, and what it did. -/
structure Row where
  number : Nat
  ip : Nat
  head : Int
  cell : Nat
  char : Char
  action : Action

variable {σ : Type}

/-- What watches a run. It is told of the start and of every executed instruction, and an
error from it ends the run. -/
structure Monitor (σ : Type) where
  started : σ → σ × Option Error
  executed : σ → Row → σ × Option Error

/-- The character of a code point. Surrogates have none and become the replacement character. -/
def codePointChar (n : Nat) : Char :=
  if n.isValidChar then Char.ofNat n else '\uFFFD'

structure Report where
  output : String
  codePoints : List Nat
  steps : Nat
deriving DecidableEq

def State.report (s : State) (steps : Nat) : Report :=
  ⟨String.ofList (s.output.map codePointChar), s.output, steps⟩

/-- How a run stands: what its monitor holds, and its result unless the fuel ran out first. -/
structure Ending (σ : Type) where
  watched : σ
  result : Option (Except Error Report)

inductive Turn (σ : Type) where
  | ended (watched : σ) (result : Except Error Report)
  | went (watched : σ) (next : State)

def turn (program : Program) (control : Control) (monitor : Monitor σ) (steps : Nat) (s : State)
    (watched : σ) : Turn σ :=
  match program[s.ip]? with
  -- The end is seen before the check is made, so a run may use up its whole budget.
  | none => .ended watched (.ok (s.report steps))
  | some char =>
    match control.objection? steps with
    | some e => .ended watched (.error e)
    | none =>
      match step program s with
      | (_, .error e) => .ended watched (.error e)
      | (next, .ok action) =>
        match monitor.executed watched ⟨steps, s.ip, s.head, s.cell, char, action⟩ with
        | (watched, some e) => .ended watched (.error e)
        | (watched, none) => .went watched next

def runFrom (program : Program) (control : Control) (monitor : Monitor σ) :
    (fuel steps : Nat) → State → σ → Ending σ
  | 0, _, _, watched => ⟨watched, none⟩
  | fuel + 1, steps, s, watched =>
    match turn program control monitor steps s watched with
    | .ended watched result => ⟨watched, some result⟩
    | .went watched next => runFrom program control monitor fuel (steps + 1) next watched

/-- The parameters a machine is built with. The loop limit is kept but not enforced. -/
structure Machine where
  tapeSize : Nat
  loopMax : Nat
deriving DecidableEq

def Machine.standard : Machine :=
  ⟨0, 0⟩

def Error.ofUnbalanced (source : List Char) : Error :=
  match unmatched? source with
  | some location => .unmatched location
  | none => .unmatched ⟨0, .closing⟩

namespace Machine

/-- Evaluates a source on fresh state under a monitor. An unbalanced source is refused before
the monitor hears of anything. -/
def execute (m : Machine) (control : Control) (monitor : Monitor σ) (fuel : Nat)
    (source input : String) (watched : σ) : Ending σ :=
  if balanced source.toList then
    match monitor.started watched with
    | (watched, some e) => ⟨watched, some (.error e)⟩
    | (watched, none) =>
      runFrom (Program.ofString source) control monitor fuel 0
        (.initial m.tapeSize input.toList) watched
  else
    ⟨watched, some (.error (.ofUnbalanced source.toList))⟩

end Machine

def Monitor.silent : Monitor Unit :=
  ⟨fun _ => ((), none), fun _ _ => ((), none)⟩

/-- Evaluates a source unobserved; `none` when the fuel runs out first. -/
def Machine.run (m : Machine) (control : Control) (fuel : Nat) (source input : String) :
    Option (Except Error Report) :=
  (m.execute control .silent fuel source input ()).result

end Brainfuck
