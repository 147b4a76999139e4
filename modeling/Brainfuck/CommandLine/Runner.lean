import Brainfuck.CommandLine.Surroundings
import Brainfuck.CommandLine.Usage

/-!
The plain runner: no settings, no limits and no log. All arguments but the two flags are code.
-/

namespace Brainfuck.CommandLine.Runner

def isHelp (argument : String) : Bool :=
  argument == "--help" || argument == "-h"

def isDebug (argument : String) : Bool :=
  argument == "--debug" || argument == "-d"

def finish (table : String) : Except Error Report → Exit
  | .ok report => .plain 0 (table ++ report.output ++ "\n") ""
  | .error e => .plain 1 table s!"Brainfuck interpreter error: {e.message}\n"

/-- Runs the code of the command line; `none` when the fuel runs out first. -/
def runner (w : Surroundings) (fuel : Nat) (arguments : List String) : Option Exit :=
  let parts := arguments.filter fun a => !isHelp a && !isDebug a
  if arguments.any isHelp || parts.isEmpty then
    some (.plain 2 "" (Usage.runner w.program))
  else
    match readInput w.terminal w.stdin with
    | .error e =>
      some (.plain 1 "" s!"Brainfuck interpreter error: failed reading stdin: {e.message}\n")
    | .ok input =>
      let source := String.join parts
      if arguments.any isDebug then
        let ending := Machine.standard.runTabled .free fuel source input (.empty none)
        ending.result.map (finish ending.watched.text)
      else
        (Machine.standard.run .free fuel source input).map (finish "")

end Brainfuck.CommandLine.Runner
