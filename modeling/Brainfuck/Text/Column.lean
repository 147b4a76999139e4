/-!
Texts set in columns. Widths count characters; a text that is too long is kept whole.
-/

namespace Brainfuck.Text

/-- At the left of a column of the given width. -/
def padRight (width : Nat) (s : String) : String :=
  s ++ "".pushn ' ' (width - s.length)

/-- At the right of a column of the given width. -/
def padLeft (width : Nat) (s : String) : String :=
  "".pushn ' ' (width - s.length) ++ s

def unlines (ls : List String) : String :=
  String.join (ls.map (· ++ "\n"))

end Brainfuck.Text
