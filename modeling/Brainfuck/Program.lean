/-!
A program is the array of its characters. A loop's other end is found by scanning: forward
from an opening bracket, backward from a closing one, counting the loops entered on the way.
-/

namespace Brainfuck

abbrev Program := Array Char

namespace Program

def ofString (source : String) : Program :=
  source.toList.toArray

/-- Looks at `left` positions from `ip` on for the bracket that closes the loop around them,
`depth` loops further in. -/
def closeFrom? (p : Program) : (left ip depth : Nat) → Option Nat
  | 0, _, _ => none
  | left + 1, ip, depth =>
    match p[ip]?, depth with
    | some '[', depth => closeFrom? p left (ip + 1) (depth + 1)
    | some ']', 0 => some ip
    | some ']', depth + 1 => closeFrom? p left (ip + 1) depth
    | _, depth => closeFrom? p left (ip + 1) depth

/-- Looks at the positions below `ip`, last one first, for the bracket that opens the loop
around them, `depth` loops further in. -/
def openBelow? (p : Program) : (ip depth : Nat) → Option Nat
  | 0, _ => none
  | ip + 1, depth =>
    match p[ip]?, depth with
    | some ']', depth => openBelow? p ip (depth + 1)
    | some '[', 0 => some ip
    | some '[', depth + 1 => openBelow? p ip depth
    | _, depth => openBelow? p ip depth

def close? (p : Program) (ip : Nat) : Option Nat :=
  p.closeFrom? (p.size - (ip + 1)) (ip + 1) 0

def open? (p : Program) (ip : Nat) : Option Nat :=
  p.openBelow? ip 0

end Program
end Brainfuck
