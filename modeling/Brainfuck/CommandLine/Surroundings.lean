import Brainfuck.Diagnostic
import Brainfuck.Evaluation
import Brainfuck.Submission

/-!
What a program finds around it when it is started and what it leaves behind. A front end is a
function from the one to the other.
-/

namespace Brainfuck.CommandLine

structure Surroundings where
  /-- The name that the program was started under. -/
  program : String
  env : Config.Environment
  read : Reader
  /-- Whether the standard input is a terminal. -/
  terminal : Bool
  /-- The bytes of the standard input. -/
  stdin : List UInt8
  /-- The buffers that the editor hands over before it is closed. -/
  typed : List String
  /-- The number of instructions that are executed within so many milliseconds. -/
  patience : Nat → Nat
  /-- The time shown in front of log lines. -/
  moment : String

structure Output where
  stdout : String
  stderr : String
deriving DecidableEq

def Output.empty : Output :=
  ⟨"", ""⟩

def Output.append (a b : Output) : Output :=
  ⟨a.stdout ++ b.stdout, a.stderr ++ b.stderr⟩

instance : Append Output :=
  ⟨Output.append⟩

/-- The status of a program that has ended and its output. The output is cut where the editor
began to wait for a buffer. -/
structure Exit where
  status : Nat
  rows : List Output
deriving DecidableEq

namespace Exit

def plain (status : Nat) (stdout stderr : String) : Exit :=
  ⟨status, [⟨stdout, stderr⟩]⟩

def output (e : Exit) : Output :=
  e.rows.foldl (· ++ ·) .empty

end Exit

namespace Surroundings

def threshold (w : Surroundings) : Log.Threshold :=
  .ofEnvironment w.env

def log (w : Surroundings) (entries : List Log.Entry) : String :=
  Log.render w.moment w.threshold entries

def complaint (w : Surroundings) (message : String) : String :=
  s!"{w.program}: {message}\n"

/-- The settings from defaults, config file and environment, overridden by flags. -/
def settings (w : Surroundings) (flags : Layer) : Except Config.LoadError Settings :=
  (Config.load w.env w.read).map (·.apply flags)

def settingsLog (w : Surroundings) : List Log.Entry :=
  let ignored := w.env.ignored.map fun (key, raw) => Log.variableIgnored key raw
  match Config.loadSelected w.env w.read with
  | .error _ => []
  | .ok none => ignored
  | .ok (some (path, _)) => Log.fileLoaded path :: ignored

/-- The source: a file's text, or the parts of the command line put together. -/
def code (w : Surroundings) (file : Option String) (parts : List String) :
    Except ReadError String :=
  match file with
  | some path => w.read.text path
  | none => .ok (String.join parts)

def evaluation (w : Surroundings) (settings : Settings) (table : Bool) (source input : String) :
    Evaluation :=
  evaluate settings ⟨table, w.threshold.shows .trace⟩ (w.patience settings.timeoutMs) source input

/-- The output of an evaluation, its errors told in the name given. A newline always follows. -/
def render (w : Surroundings) (name : Option String) (settings : Settings) (source : String)
    (e : Evaluation) : Output :=
  let logged := w.log e.log
  match e.result with
  | .ok report => ⟨e.table ++ report.output ++ "\n", logged⟩
  | .error err =>
    let told := Diagnostic.runError? name source.toList settings.timeoutMs err
    ⟨e.table ++ "\n", logged ++ told.getD ""⟩

end Surroundings
end Brainfuck.CommandLine
