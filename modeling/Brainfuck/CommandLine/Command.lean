import Brainfuck.CommandLine.Options
import Brainfuck.Config.Settings
import Brainfuck.Text.Numeral

/-!
The commands of the program and their options. A command line is accepted or refused as a whole
before any command starts.
-/

namespace Brainfuck.CommandLine

open Text

structure RunOptions where
  help : Bool
  debug : Bool
  file : Option String
  input : Option String
  inputFile : Option String
  flags : Layer
  code : List String
deriving DecidableEq

structure CheckOptions where
  help : Bool
  file : Option String
  code : List String
deriving DecidableEq

structure ReplOptions where
  help : Bool
  bare : Bool
  editor : Bool
deriving DecidableEq

inductive Command where
  | help
  | run (options : RunOptions)
  | check (options : CheckOptions)
  | repl (options : ReplOptions)
deriving DecidableEq

def helpSpec : OptionSpec :=
  ⟨"help", some 'h', false⟩

def runSpecs : List OptionSpec :=
  [ ⟨"debug", some 'd', false⟩,
    ⟨"file", some 'f', true⟩,
    ⟨"input", some 'i', true⟩,
    ⟨"input-file", none, true⟩,
    ⟨"tape-size", none, true⟩,
    ⟨"loop-max", none, true⟩,
    ⟨"timeout", none, true⟩,
    ⟨"max-steps", none, true⟩,
    helpSpec ]

def checkSpecs : List OptionSpec :=
  [⟨"file", some 'f', true⟩, helpSpec]

def replSpecs : List OptionSpec :=
  [⟨"bare", none, false⟩, ⟨"editor", none, false⟩, helpSpec]

def number (s : Scan) (long : String) : Except Refusal (Option Nat) :=
  match s.value? long with
  | none => .ok none
  | some value =>
    match readNumeral? value.toList with
    | some n => .ok (some n)
    | none => .error (.badNumber long value)

def RunOptions.parse (arguments : List String) : Except Refusal RunOptions := do
  let s ← Scan.read runSpecs arguments
  s.exclude "input" "input-file"
  let tapeSize ← number s "tape-size"
  let loopMax ← number s "loop-max"
  let timeoutMs ← number s "timeout"
  let maxSteps ← number s "max-steps"
  return {
    help := s.has "help"
    debug := s.has "debug"
    file := s.value? "file"
    input := s.value? "input"
    inputFile := s.value? "input-file"
    flags := ⟨tapeSize, loopMax, maxSteps, timeoutMs⟩
    code := s.rest }

def CheckOptions.parse (arguments : List String) : Except Refusal CheckOptions := do
  let s ← Scan.read checkSpecs arguments
  return { help := s.has "help", file := s.value? "file", code := s.rest }

def ReplOptions.parse (arguments : List String) : Except Refusal ReplOptions := do
  let s ← Scan.read replSpecs arguments
  s.exclude "bare" "editor"
  match s.rest with
  | argument :: _ => throw (.unexpectedArgument argument)
  | [] => return { help := s.has "help", bare := s.has "bare", editor := s.has "editor" }

/-- The command that the names after the first options spell. Without a name it is the REPL. -/
def Command.ofRest : List String → Except Refusal Command
  | [] => .ok (.repl ⟨false, false, false⟩)
  | "run" :: rest => (RunOptions.parse rest).map .run
  | "check" :: rest => (CheckOptions.parse rest).map .check
  | "repl" :: rest => (ReplOptions.parse rest).map .repl
  | argument :: _ => .error (.unexpectedArgument argument)

/-- Reads a whole command line. Help asked for in front of a command wins once the rest has been
accepted. No command is named after a double dash. -/
def Command.parse (arguments : List String) : Except Refusal Command := do
  let s ← Scan.read [helpSpec] arguments
  match s.escaped, s.rest with
  | true, argument :: _ => throw (.unexpectedArgument argument)
  | _, rest =>
    let command ← Command.ofRest rest
    return if s.has "help" then .help else command

end Brainfuck.CommandLine
