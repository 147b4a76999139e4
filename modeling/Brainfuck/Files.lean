/-!
Reading of files. Front ends ask for a path and get its bytes or the reason why not; where the
answers come from is up to the caller.
-/

namespace Brainfuck

inductive ReadError where
  | notFound
  | notDirectory
  | isDirectory
  | nameTooLong
  | notText
  | other (reason : String)
deriving DecidableEq

def ReadError.message : ReadError → String
  | .notFound => "No such file or directory (os error 2)"
  | .notDirectory => "Not a directory (os error 20)"
  | .isDirectory => "Is a directory (os error 21)"
  | .nameTooLong => "File name too long (os error 36)"
  | .notText => "stream did not contain valid UTF-8"
  | .other reason => reason

def decodeText? (bytes : List UInt8) : Option String :=
  String.fromUTF8? ⟨bytes.toArray⟩

def decodeText (bytes : List UInt8) : Except ReadError String :=
  match decodeText? bytes with
  | some text => .ok text
  | none => .error .notText

/-- Answers for every path with the bytes of the file or the reason why it cannot be read. -/
abbrev Reader := String → Except ReadError (List UInt8)

def Reader.text (read : Reader) (path : String) : Except ReadError String :=
  match read path with
  | .error e => .error e
  | .ok bytes => decodeText bytes

end Brainfuck
