/-!
Classes of characters that the texts of this program distinguish. Each is a class of the
Unicode standard, given by its ranges of code points.
-/

namespace Brainfuck.Text

def inRanges (ranges : List (Nat × Nat)) (n : Nat) : Bool :=
  ranges.any fun r => r.1 ≤ n && n ≤ r.2

/-- Control characters: general category Cc. -/
def isControl (c : Char) : Bool :=
  inRanges [(0x00, 0x1F), (0x7F, 0x9F)] c.toNat

/-- Blanks: the property White_Space. -/
def isBlank (c : Char) : Bool :=
  inRanges [(0x09, 0x0D), (0x20, 0x20), (0x85, 0x85), (0xA0, 0xA0), (0x1680, 0x1680),
    (0x2000, 0x200A), (0x2028, 0x2029), (0x202F, 0x202F), (0x205F, 0x205F), (0x3000, 0x3000)]
    c.toNat

def lower (s : String) : String :=
  String.ofList (s.toList.map Char.toLower)

end Brainfuck.Text
