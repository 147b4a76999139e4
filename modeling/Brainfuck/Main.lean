import Brainfuck.CommandLine.Program
import Brainfuck.CommandLine.Runner

/-!
The executable. It collects what the front ends need to know, calls them and prints what they
say. Started under the name of the plain runner it is that, under any other name the program
with its commands.
-/

namespace Brainfuck.CommandLine

def variableNames : List String :=
  ["BF_CONFIG", "XDG_CONFIG_HOME", "HOME", "RUST_LOG", "BF_REPL_MODE", "BF_REPL_ONCE"] ++
    Key.all.map (·.variableName)

def paths (env : Config.Environment) (arguments : List String) : List String :=
  let named :=
    match Command.parse arguments with
    | .ok (.run o) => o.file.toList ++ o.inputFile.toList
    | .ok (.check o) => o.file.toList
    | _ => []
  named ++ (Config.path? env).toList

def wantsInput (arguments : List String) : Bool :=
  match Command.parse arguments with
  | .ok (.run o) => !o.help && o.input.isNone && o.inputFile.isNone
  | .ok (.repl o) => !o.help
  | _ => false

/-- Instructions per millisecond by which timeouts are measured. -/
def pace : Nat := 4000

def readError : IO.Error → ReadError
  | .noFileOrDirectory .. => .notFound
  | .inappropriateType _ 20 _ => .notDirectory
  | .inappropriateType .. => .isDirectory
  | .invalidArgument _ 36 _ => .nameTooLong
  | e => .other (toString e)

def readFile (path : String) : IO (Except ReadError (List UInt8)) := do
  try
    return .ok (← IO.FS.readBinFile path).toList
  catch e =>
    return .error (readError e)

/-- Collects the environment, the files that may be asked for, and a piped standard input if it
is wanted. -/
def survey (program : String) (arguments : List String) (wanted : Bool) : IO Surroundings := do
  let found ← variableNames.filterMapM fun name => do
    return (← IO.getEnv name).map (name, ·)
  let env : Config.Environment := fun name => found.lookup name
  let files ← (paths env arguments).mapM fun path => do
    return (path, ← readFile path)
  let input ← IO.getStdin
  let terminal ← input.isTty
  let stdin ← if terminal || !wanted then pure [] else (·.toList) <$> input.readBinToEnd
  return {
    program, env, terminal, stdin
    read := fun path => (files.lookup path).getD (.error .notFound)
    typed := []
    patience := fun ms => ms * pace
    moment := toString (← IO.monoMsNow) }

def print (o : Output) : IO Unit := do
  let stderr ← IO.getStderr
  stderr.putStr o.stderr
  stderr.flush
  let stdout ← IO.getStdout
  stdout.putStr o.stdout
  stdout.flush

partial def readBuffer (input : IO.FS.Stream) (soFar : String) : IO String := do
  let line ← input.getLine
  if line.isEmpty then return soFar else readBuffer input (soFar ++ line)

/-- A session on a terminal: every end of input hands over a buffer, an empty one closes the
session. -/
partial def converse (w : Surroundings) (settings : Settings) : IO Unit := do
  let buffer ← readBuffer (← IO.getStdin) ""
  if buffer.isEmpty then
    print ⟨"\n", ""⟩
  else
    match Repl.respond? w settings buffer with
    | none => converse w settings
    | some output =>
      print output
      unless Repl.once w.env do converse w settings

/-- Grants ever more fuel until the runner ends. -/
partial def persist (w : Surroundings) (arguments : List String) (fuel : Nat) : IO Exit := do
  match Runner.runner w fuel arguments with
  | some exit => return exit
  | none => persist w arguments (2 * fuel)

/-- Runs a command line; a session on a terminal goes on while buffers come in. -/
def dispatch (w : Surroundings) (arguments : List String) : IO Exit := do
  match Command.parse arguments with
  | .ok (.repl o) =>
    match o.help, Repl.start w o with
    | false, .ok (.editor, settings, logged) =>
      print ⟨"", logged⟩
      converse w settings
      return ⟨0, []⟩
    | _, _ => return perform w arguments
  | _ => return perform w arguments

end Brainfuck.CommandLine

open Brainfuck.CommandLine in
def main (arguments : List String) : IO UInt32 := do
  let program := (← IO.appPath).fileStem.getD "bf"
  let plain := program = "bf_runner"
  let w ← survey program arguments (plain || wantsInput arguments)
  let exit ← if plain then persist w arguments 1000000 else dispatch w arguments
  print exit.output
  return exit.status.toUInt32
