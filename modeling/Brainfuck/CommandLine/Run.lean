import Brainfuck.CommandLine.Command
import Brainfuck.CommandLine.Surroundings
import Brainfuck.CommandLine.Usage

/-!
The command that evaluates a source. Source, input and settings are found in this order, and
the first that is not available ends the command before anything is evaluated.
-/

namespace Brainfuck.CommandLine.Run

/-- The input of the program: given outright, from a file, or piped in. -/
def input (w : Surroundings) (o : RunOptions) : Except ReadError String :=
  match o.input, o.inputFile with
  | some text, _ => .ok text
  | none, some path => w.read.text path
  | none, none => readInput w.terminal w.stdin

def finish (w : Surroundings) (debug : Bool) (settings : Settings) (source input : String) : Exit :=
  let e := w.evaluation settings debug source input
  let before := w.log (w.settingsLog ++ [Log.settingsResolved settings])
  let output := w.render (some w.program) settings source e
  let status :=
    match e.result with
    | .ok _ => 0
    | .error _ => 1
  .plain status output.stdout (before ++ output.stderr)

def run (w : Surroundings) (o : RunOptions) : Exit :=
  if o.help then
    .plain 0 "" (Usage.run w.program)
  else if o.file.isNone && o.code.isEmpty then
    .plain 2 "" (Usage.run w.program)
  else if o.file.isSome && !o.code.isEmpty then
    .plain 2 "" (w.complaint "cannot use positional code together with --file" ++
      Usage.run w.program)
  else
    match w.code o.file o.code with
    | .error e => .plain 1 "" (w.complaint s!"failed to read code file as UTF-8: {e.message}")
    | .ok source =>
      match input w o with
      | .error e => .plain 1 "" (w.complaint s!"failed to read input: {e.message}")
      | .ok input =>
        match w.settings o.flags with
        | .error e => .plain 1 "" (w.complaint e.message)
        | .ok settings => finish w o.debug settings source input

end Brainfuck.CommandLine.Run
