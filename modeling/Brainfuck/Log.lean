import Brainfuck.Config.Source
import Brainfuck.Machine.Run
import Brainfuck.Text.Column
import Brainfuck.Text.Quoted

/-!
Log lines. Every entry has a level and the part of the program it comes from; a threshold keeps
the entries that are severe enough.
-/

namespace Brainfuck.Log

open Text

inductive Level where
  | error
  | warn
  | info
  | debug
  | trace
deriving DecidableEq

namespace Level

/-- Higher numbers are less severe. -/
def detail : Level → Nat
  | .error => 1
  | .warn => 2
  | .info => 3
  | .debug => 4
  | .trace => 5

def name : Level → String
  | .error => "ERROR"
  | .warn => "WARN"
  | .info => "INFO"
  | .debug => "DEBUG"
  | .trace => "TRACE"

end Level

/-- The least severe detail that is shown; zero shows nothing. -/
abbrev Threshold := Nat

namespace Threshold

def ofLowerName? : String → Option Threshold
  | "off" => some 0
  | "error" => some Level.error.detail
  | "warn" => some Level.warn.detail
  | "info" => some Level.info.detail
  | "debug" => some Level.debug.detail
  | "trace" => some Level.trace.detail
  | _ => none

/-- The threshold of that name, in any case. -/
def ofName? (name : String) : Option Threshold :=
  ofLowerName? (lower name)

/-- Warnings and errors, unless the environment names a threshold. -/
def ofEnvironment (env : Config.Environment) : Threshold :=
  ((env "RUST_LOG").bind ofName?).getD Level.warn.detail

def shows (t : Threshold) (level : Level) : Bool :=
  level.detail ≤ t

end Threshold

structure Entry where
  level : Level
  origin : String
  message : String
deriving DecidableEq

def Entry.render (moment : String) (e : Entry) : String :=
  s!"{moment} {padLeft 5 e.level.name} {e.origin}: {e.message}\n"

def render (moment : String) (t : Threshold) (entries : List Entry) : String :=
  String.join ((entries.filter (t.shows ·.level)).map (·.render moment))

def fileLoaded (path : String) : Entry :=
  ⟨.debug, "bf_machine::config", s!"loaded config file path={path}"⟩

def variableIgnored (key : Key) (raw : String) : Entry :=
  ⟨.warn, "bf_machine::config",
    "ignoring invalid environment value (expected a non-negative integer) " ++
      s!"key={quoted key.variableName} value={raw}"⟩

def settingsText (s : Settings) : String :=
  let budget :=
    match s.maxSteps with
    | none => "None"
    | some n => s!"Some({n})"
  "Settings \x7b " ++
    s!"tape_size: {s.tapeSize}, loop_max: {s.loopMax}, max_steps: {budget}, timeout_ms: {s.timeoutMs}" ++
    " \x7d"

def settingsResolved (s : Settings) : Entry :=
  ⟨.debug, "bf_machine::commands::run", "resolved run settings settings=" ++ settingsText s⟩

def runStarted (sourceLength inputLength tapeSize : Nat) : Entry :=
  ⟨.debug, "bf_machine::machine",
    s!"run started source_len={sourceLength} input_len={inputLength} tape_size={tapeSize}"⟩

def runFinished (report : Report) : Entry :=
  ⟨.debug, "bf_machine::machine",
    s!"run finished steps={report.steps} output_len={report.codePoints.length}"⟩

def workerCancelled (timeoutMs : Nat) : Entry :=
  ⟨.debug, "bf_machine::cli_util", s!"worker cancelled timeout_ms={timeoutMs}"⟩

/-- The jump of a loop bracket; other instructions leave no entry. -/
def jump? (row : Row) : Option Entry :=
  match row.action with
  | .skippedLoop target =>
    some ⟨.trace, "bf_machine::machine", s!"loop skipped ip={row.ip} target={target}"⟩
  | .jumpedBack target =>
    some ⟨.trace, "bf_machine::machine", s!"loop repeated ip={row.ip} target={target}"⟩
  | _ => none

def jumps : Monitor (Array Entry) where
  started entries := (entries, none)
  executed entries row :=
    match jump? row with
    | some entry => (entries.push entry, none)
    | none => (entries, none)

end Brainfuck.Log
