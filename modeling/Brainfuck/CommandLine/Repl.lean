import Brainfuck.CommandLine.Command
import Brainfuck.CommandLine.Surroundings
import Brainfuck.CommandLine.Usage

/-!
The read-eval-print loop. In bare mode the standard input is one submission; in editor mode the
editor hands over one buffer after the other. Every submission is evaluated on fresh state.
-/

namespace Brainfuck.CommandLine.Repl

open Text

inductive Mode where
  | bare
  | editor
deriving DecidableEq

def flag? (o : ReplOptions) : Option Mode :=
  if o.bare then some .bare
  else if o.editor then some .editor
  else none

inductive ModeError where
  | flagWithoutTerminal
  | variableWithoutTerminal
  | unknownMode (value : String)
deriving DecidableEq

def ModeError.message : ModeError → String
  | .flagWithoutTerminal =>
    "cannot start editor: stdin is not a TTY (use --bare or BF_REPL_MODE=bare)"
  | .variableWithoutTerminal => "cannot start editor: stdin is not a TTY (use BF_REPL_MODE=bare)"
  | .unknownMode value => s!"invalid BF_REPL_MODE value: {value}, must be 'bare' or 'editor'"

/-- The name of a mode, in any case and with blanks around it. -/
def Mode.ofName? (value : String) : Option Mode :=
  let name := lower (String.ofList (trim value.toList))
  if name = "bare" then some .bare
  else if name = "editor" then some .editor
  else none

/-- A flag decides, then the value of the variable, then whether there is a terminal. The editor
needs one. -/
def resolveMode (flag : Option Mode) (value : Option String) (terminal : Bool) :
    Except ModeError Mode :=
  match flag, value with
  | some .bare, _ => .ok .bare
  | some .editor, _ => if terminal then .ok .editor else .error .flagWithoutTerminal
  | none, some value =>
    match Mode.ofName? value with
    | some .bare => .ok .bare
    | some .editor => if terminal then .ok .editor else .error .variableWithoutTerminal
    | none => .error (.unknownMode value)
  | none, none => .ok (if terminal then .editor else .bare)

/-- Evaluates one buffer; one without instructions is passed over. -/
def respond? (w : Surroundings) (settings : Settings) (buffer : String) : Option Output :=
  let submission := Submission.parse buffer.toList
  if submission.hasInstructions then
    let source := String.ofList submission.source
    let e := w.evaluation settings false source (String.ofList submission.input)
    some (w.render none settings source e)
  else
    none

def bareOutput (w : Surroundings) (settings : Settings) : Output :=
  ((Submission.read? w.stdin).bind (respond? w settings)).getD .empty

/-- The output for each buffer and for the end of the session. With `once` the session ends
after the first evaluation; otherwise a newline ends it when the editor is closed. -/
def editorRows (w : Surroundings) (settings : Settings) (once : Bool) : List String → List Output
  | [] => [⟨"\n", ""⟩]
  | buffer :: rest =>
    match respond? w settings buffer with
    | none => .empty :: editorRows w settings once rest
    | some output => if once then [output] else output :: editorRows w settings once rest

def once (env : Config.Environment) : Bool :=
  env "BF_REPL_ONCE" = some "1"

def start (w : Surroundings) (o : ReplOptions) : Except Exit (Mode × Settings × String) :=
  match resolveMode (flag? o) (w.env "BF_REPL_MODE") w.terminal with
  | .error e => .error (.plain 1 "" (w.complaint e.message))
  | .ok mode =>
    match w.settings .empty with
    | .error e => .error (.plain 1 "" (w.complaint e.message))
    | .ok settings => .ok (mode, settings, w.log w.settingsLog)

def repl (w : Surroundings) (o : ReplOptions) : Exit :=
  if o.help then
    .plain 0 "" (Usage.repl w.program)
  else
    match start w o with
    | .error exit => exit
    | .ok (.bare, settings, logged) => ⟨0, [⟨"", logged⟩ ++ bareOutput w settings]⟩
    | .ok (.editor, settings, logged) =>
      ⟨0, ⟨"", logged⟩ :: editorRows w settings (once w.env) w.typed⟩

end Brainfuck.CommandLine.Repl
