import Brainfuck.Brackets

/-!
Why a run ends without a report. Each cause carries what its message mentions; the wording is
in one place.
-/

namespace Brainfuck

/-- A broken assumption of the machine itself. No run of a balanced program meets one. -/
inductive Crash where
  | outsideProgram
  | headOverflow
  | cellRefused
deriving DecidableEq

inductive Error where
  | unmatched (location : Unmatched)
  | inputExhausted (ip : Nat)
  | stepLimit (limit : Nat)
  | cancelled
  | unbalancedScan (ip : Nat)
  | table (reason : String)
  | crash (cause : Crash)
deriving DecidableEq

def Crash.message : Crash → String
  | .outsideProgram => "instruction pointer outside the program"
  | .headOverflow => "head position overflow"
  | .cellRefused => "cell update refused"

def Error.message : Error → String
  | .unmatched u => s!"Unmatched bracket {u.bracket.quoted} at instruction {u.ip}"
  | .inputExhausted ip => s!"Input exhausted at instruction {ip}"
  | .stepLimit limit => s!"Execution aborted: step limit exceeded ({limit})"
  | .cancelled => "Execution aborted: cancelled"
  | .unbalancedScan ip => s!"Internal error: no matching bracket for the loop at instruction {ip}"
  | .table reason => s!"Failed to write debug trace: {reason}"
  | .crash cause => s!"Internal error: {cause.message}"

end Brainfuck
