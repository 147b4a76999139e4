import Brainfuck.Log
import Brainfuck.Machine.Table

/-!
Evaluation under settings, as the front ends do it. The caller waits for the answer for a
limited number of instructions; if none has arrived by then, the evaluation is cancelled.
-/

namespace Brainfuck

variable {σ τ : Type}

def Monitor.onlyIf (on : Bool) (m : Monitor σ) : Monitor σ where
  started s := if on then m.started s else (s, none)
  executed s row := if on then m.executed s row else (s, none)

/-- Two monitors of one run. The first objection ends it. -/
def Monitor.both (m : Monitor σ) (n : Monitor τ) : Monitor (σ × τ) where
  started
    | (s, t) =>
      match m.started s with
      | (s, some e) => ((s, t), some e)
      | (s, none) =>
        match n.started t with
        | (t, e?) => ((s, t), e?)
  executed
    | (s, t), row =>
      match m.executed s row with
      | (s, some e) => ((s, t), some e)
      | (s, none) =>
        match n.executed t row with
        | (t, e?) => ((s, t), e?)

def Settings.machine (s : Settings) : Machine :=
  ⟨s.tapeSize, s.loopMax⟩

def Settings.control (s : Settings) : Control :=
  ⟨s.maxSteps, fun _ => false⟩

structure Evaluation where
  result : Except Error Report
  table : String
  log : List Log.Entry

structure Watching where
  table : Bool
  jumps : Bool

/-- What a worker with this result sends. One that crashed dies without a message. -/
def delivery (r : Except Error Report) : Option (Except Error Report) :=
  match r with
  | .error (.crash _) => none
  | r => some r

/-- Evaluates a source under settings and waits for `patience` instructions. Without a message
by then the evaluation counts as cancelled, and so it does if the worker died. -/
def evaluate (settings : Settings) (watching : Watching) (patience : Nat) (source input : String) :
    Evaluation :=
  let monitor := (Monitor.table.onlyIf watching.table).both (Log.jumps.onlyIf watching.jumps)
  let ending := settings.machine.execute settings.control monitor patience source input
    (.empty none, #[])
  let begun := Log.runStarted source.length input.length settings.tapeSize ::
    ending.watched.2.toList
  { result := (ending.result.bind delivery).getD (.error .cancelled)
    table := ending.watched.1.text
    log :=
      -- A refused source never begins. Only a caller whose time is up logs that it gave up, and a
      -- worker that died says nothing.
      match ending.result with
      | some (.ok report) => begun ++ [Log.runFinished report]
      | some (.error (.unmatched _)) => []
      | some (.error _) => begun
      | none => begun ++ [Log.workerCancelled settings.timeoutMs] }

end Brainfuck
