import Brainfuck.CommandLine.Check
import Brainfuck.CommandLine.Repl
import Brainfuck.CommandLine.Run

/-!
The program with its three commands. A command line that is refused ends it with status two
before anything else happens.
-/

namespace Brainfuck.CommandLine

def Command.perform (w : Surroundings) : Command → Exit
  | .help => .plain 0 "" (Usage.top w.program)
  | .run o => Run.run w o
  | .check o => Check.check w o
  | .repl o => Repl.repl w o

def perform (w : Surroundings) (arguments : List String) : Exit :=
  match Command.parse arguments with
  | .error refusal => .plain 2 "" (refusal.message ++ "\n")
  | .ok command => command.perform w

end Brainfuck.CommandLine
