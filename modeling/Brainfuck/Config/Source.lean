import Brainfuck.Config.File
import Brainfuck.Files

/-!
Where settings come from: the defaults, then the config file, then the environment. A missing
config file is no error and sets nothing; one that cannot be read or does not parse is. A
variable whose value is no number is passed over.
-/

namespace Brainfuck.Config

open Text

abbrev Environment := String → Option String

def readVariable? (raw : String) : Option Nat :=
  readNumeral? (trim raw.toList)

namespace Environment

def layer (env : Environment) : Layer :=
  .ofKeys fun key => (env key.variableName).bind readVariable?

/-- The keys whose variables are set to no number, with the raw values. -/
def ignored (env : Environment) : List (Key × String) :=
  Key.all.filterMap fun key =>
    match env key.variableName with
    | some raw => if (readVariable? raw).isNone then some (key, raw) else none
    | none => none

end Environment

def fileName : String :=
  "bf-machine.toml"

/-- A name below a directory. The empty directory name is the working directory. -/
def join (directory name : String) : String :=
  if directory = "" || directory.endsWith "/" then directory ++ name
  else directory ++ "/" ++ name

/-- The config file's path: named outright, else in the user's config directory. There is none
without a home. -/
def path? (env : Environment) : Option String :=
  match env "BF_CONFIG" with
  | some path => some path
  | none =>
    match env "XDG_CONFIG_HOME" with
    | some directory => some (join directory fileName)
    | none =>
      match env "HOME" with
      | none | some "" => none
      | some home => some (join (join home ".config") fileName)

inductive LoadError where
  | unreadable (path : String) (cause : ReadError)
  | invalid (cause : InvalidValue)
deriving DecidableEq

def LoadError.message : LoadError → String
  | .unreadable path cause => s!"failed to read config file {path}: {cause.message}"
  | .invalid cause => cause.message

/-- The layer of the config file at a path; none if there is no such file. -/
def loadFile (read : Reader) (path : String) : Except LoadError (Option Layer) :=
  match read.text path with
  | .ok content =>
    match parse content with
    | .ok layer => .ok (some layer)
    | .error e => .error (.invalid e)
  | .error .notFound => .ok none
  | .error e => .error (.unreadable path e)

def loadSelected (env : Environment) (read : Reader) :
    Except LoadError (Option (String × Layer)) :=
  match path? env with
  | none => .ok none
  | some path => (loadFile read path).map fun layer? => layer?.map (path, ·)

/-- Defaults, then the config file, then the environment. -/
def load (env : Environment) (read : Reader) : Except LoadError Settings :=
  match loadSelected env read with
  | .error e => .error e
  | .ok none => .ok (Settings.standard.apply env.layer)
  | .ok (some (_, file)) => .ok ((Settings.standard.apply file).apply env.layer)

end Brainfuck.Config
