import Brainfuck.CommandLine.Command
import Brainfuck.CommandLine.Surroundings
import Brainfuck.CommandLine.Usage

/-!
The command that checks the brackets of a source and runs nothing.
-/

namespace Brainfuck.CommandLine.Check

def verdict (w : Surroundings) (source : String) : Exit :=
  match unmatched? source.toList with
  | none => .plain 0 "ok\n" ""
  | some u =>
    let headline := Diagnostic.named (some w.program) (Diagnostic.unmatchedHeadline u.bracket)
    .plain 1 "" ((Diagnostic.context? headline source.toList u.ip).getD "")

def check (w : Surroundings) (o : CheckOptions) : Exit :=
  if o.help then
    .plain 0 "" (Usage.check w.program)
  else if o.file.isNone && o.code.isEmpty then
    .plain 2 "" (Usage.check w.program)
  else if o.file.isSome && !o.code.isEmpty then
    .plain 2 "" (w.complaint "cannot use positional code together with --file" ++
      Usage.check w.program)
  else
    match w.code o.file o.code with
    | .error e => .plain 1 "" (w.complaint s!"failed to read code file as UTF-8: {e.message}")
    | .ok source => verdict w source

end Brainfuck.CommandLine.Check
