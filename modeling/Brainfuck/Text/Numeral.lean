/-!
Reading and writing of numbers. A numeral is an optional plus sign and at least one ASCII
digit; its value has to fit an unsigned 64-bit word.
-/

namespace Brainfuck.Text

/-- One past the largest unsigned 64-bit word: the 64th power of two. -/
def numeralBound : Nat := 0x10000000000000000

def isDigit (c : Char) : Bool :=
  '0' ≤ c && c ≤ '9'

def digitsValue (cs : List Char) : Nat :=
  cs.foldl (fun n c => 10 * n + (c.toNat - '0'.toNat)) 0

def readDigits? (cs : List Char) : Option Nat :=
  if !cs.isEmpty && cs.all isDigit && digitsValue cs < numeralBound then
    some (digitsValue cs)
  else
    none

def readNumeral? : List Char → Option Nat
  | '+' :: rest => readDigits? rest
  | cs => readDigits? cs

def hexDigits (n : Nat) : String :=
  String.ofList (Nat.toDigits 16 n)

def hex (n : Nat) : String :=
  "0x" ++ hexDigits n

end Brainfuck.Text
