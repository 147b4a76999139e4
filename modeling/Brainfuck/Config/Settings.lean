/-!
The settings of a run and the layers that override them. A layer may set any of the four keys;
applying it replaces exactly those, so later layers win key by key.
-/

namespace Brainfuck

structure Settings where
  tapeSize : Nat
  loopMax : Nat
  maxSteps : Option Nat
  timeoutMs : Nat
deriving DecidableEq

/-- Unbounded tape, no budget, two seconds. -/
def Settings.standard : Settings :=
  ⟨0, 0, none, 2000⟩

structure Layer where
  tapeSize : Option Nat
  loopMax : Option Nat
  maxSteps : Option Nat
  timeoutMs : Option Nat
deriving DecidableEq

def Layer.empty : Layer :=
  ⟨none, none, none, none⟩

def Settings.apply (s : Settings) (l : Layer) : Settings where
  tapeSize := l.tapeSize.getD s.tapeSize
  loopMax := l.loopMax.getD s.loopMax
  maxSteps := l.maxSteps.or s.maxSteps
  timeoutMs := l.timeoutMs.getD s.timeoutMs

inductive Key where
  | tapeSize
  | loopMax
  | maxSteps
  | timeoutMs
deriving DecidableEq

namespace Key

def all : List Key :=
  [.tapeSize, .loopMax, .maxSteps, .timeoutMs]

def name : Key → String
  | .tapeSize => "tape_size"
  | .loopMax => "loop_max"
  | .maxSteps => "max_steps"
  | .timeoutMs => "timeout_ms"

def variableName : Key → String
  | .tapeSize => "BF_TAPE_SIZE"
  | .loopMax => "BF_LOOP_MAX"
  | .maxSteps => "BF_MAX_STEPS"
  | .timeoutMs => "BF_TIMEOUT_MS"

def ofName? (name : String) : Option Key :=
  all.find? (·.name = name)

end Key

namespace Layer

def get? (l : Layer) : Key → Option Nat
  | .tapeSize => l.tapeSize
  | .loopMax => l.loopMax
  | .maxSteps => l.maxSteps
  | .timeoutMs => l.timeoutMs

def set (l : Layer) (key : Key) (value : Nat) : Layer :=
  match key with
  | .tapeSize => { l with tapeSize := some value }
  | .loopMax => { l with loopMax := some value }
  | .maxSteps => { l with maxSteps := some value }
  | .timeoutMs => { l with timeoutMs := some value }

def ofKeys (value? : Key → Option Nat) : Layer :=
  ⟨value? .tapeSize, value? .loopMax, value? .maxSteps, value? .timeoutMs⟩

end Layer
end Brainfuck
