/-!
Options on a command line. Long options are spelled out in full and take their value after an
equals sign or as the next argument; short ones may be joined in one argument, the last of them
followed by its value. The first argument that is no option ends the options, and so does a
double dash, which is dropped.
-/

namespace Brainfuck.CommandLine

structure OptionSpec where
  long : String
  short : Option Char
  takesValue : Bool

inductive Refusal where
  | unknownOption (spelling : String)
  | missingValue (long : String)
  | unexpectedValue (long : String)
  | repeated (long : String)
  | conflict (one other : String)
  | badNumber (long value : String)
  | unexpectedArgument (argument : String)
deriving DecidableEq

def Refusal.message : Refusal → String
  | .unknownOption spelling => s!"error: unexpected argument '{spelling}' found"
  | .missingValue long => s!"error: a value is required for '--{long}' but none was supplied"
  | .unexpectedValue long => s!"error: unexpected value for '--{long}' found"
  | .repeated long => s!"error: the argument '--{long}' cannot be used multiple times"
  | .conflict one other => s!"error: the argument '--{one}' cannot be used with '--{other}'"
  | .badNumber long value => s!"error: invalid value '{value}' for '--{long}'"
  | .unexpectedArgument argument => s!"error: unexpected argument '{argument}' found"

structure Given where
  long : String
  value : Option String
deriving DecidableEq

/-- The options of one argument: those complete in it, and the last one if its value is the next
argument. -/
structure Marks where
  complete : List Given
  awaiting : Option String

def readShort (specs : List OptionSpec) : List Char → Except Refusal Marks
  | [] => .ok ⟨[], none⟩
  | c :: rest =>
    match specs.find? (·.short == some c) with
    | none => .error (.unknownOption (String.ofList ['-', c]))
    | some spec =>
      if spec.takesValue then
        match rest with
        | [] => .ok ⟨[], some spec.long⟩
        -- Of several equals signs only the first does not belong to the value.
        | '=' :: value => .ok ⟨[⟨spec.long, some (String.ofList value)⟩], none⟩
        | value => .ok ⟨[⟨spec.long, some (String.ofList value)⟩], none⟩
      else
        match readShort specs rest with
        | .error e => .error e
        | .ok marks => .ok { marks with complete := ⟨spec.long, none⟩ :: marks.complete }

def readLong (specs : List OptionSpec) (cs : List Char) : Except Refusal Marks :=
  let name := String.ofList (cs.takeWhile (· != '='))
  let value? :=
    match cs.dropWhile (· != '=') with
    | [] => none
    | _ :: value => some (String.ofList value)
  match specs.find? (·.long == name), value? with
  | none, _ => .error (.unknownOption (String.ofList ('-' :: '-' :: cs)))
  | some spec, none =>
    if spec.takesValue then .ok ⟨[], some spec.long⟩ else .ok ⟨[⟨spec.long, none⟩], none⟩
  | some spec, some value =>
    if spec.takesValue then .ok ⟨[⟨spec.long, some value⟩], none⟩
    else .error (.unexpectedValue spec.long)

def readMarks (specs : List OptionSpec) (argument : String) : Except Refusal Marks :=
  match argument.toList with
  | '-' :: '-' :: cs => readLong specs cs
  | cs => readShort specs (cs.drop 1)

/-- An argument that is spelled like an option. A lone dash is not. -/
def looksLikeOption (argument : String) : Bool :=
  argument.toList.head? == some '-' && argument != "-"

structure Scan where
  given : List Given
  /-- Whether a double dash ended the options. -/
  escaped : Bool
  rest : List String

def scan (specs : List OptionSpec) : List String → Except Refusal Scan
  | [] => .ok ⟨[], false, []⟩
  | argument :: rest =>
    if argument = "--" then
      .ok ⟨[], true, rest⟩
    else if looksLikeOption argument then
      match readMarks specs argument, rest with
      | .error e, _ => .error e
      | .ok ⟨complete, none⟩, rest => (scan specs rest).map fun s =>
          { s with given := complete ++ s.given }
      | .ok ⟨_, some long⟩, [] => .error (.missingValue long)
      | .ok ⟨complete, some long⟩, value :: rest =>
        -- The next option does not pass for the value of the last one.
        if looksLikeOption value then
          .error (.missingValue long)
        else
          (scan specs rest).map fun s =>
            { s with given := complete ++ ⟨long, some value⟩ :: s.given }
    else
      .ok ⟨[], false, argument :: rest⟩

namespace Scan

def has (s : Scan) (long : String) : Bool :=
  s.given.any (·.long == long)

def value? (s : Scan) (long : String) : Option String :=
  (s.given.find? (·.long == long)).bind (·.value)

def repeated? : List Given → Option String
  | [] => none
  | g :: rest => if rest.any (·.long == g.long) then some g.long else repeated? rest

def read (specs : List OptionSpec) (arguments : List String) : Except Refusal Scan :=
  match scan specs arguments with
  | .error e => .error e
  | .ok s =>
    match repeated? s.given with
    | some long => .error (.repeated long)
    | none => .ok s

def exclude (s : Scan) (one other : String) : Except Refusal Unit :=
  if s.has one && s.has other then .error (.conflict one other) else .ok ()

end Scan
end Brainfuck.CommandLine
