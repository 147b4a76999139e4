import Brainfuck.Text.Hidden
import Brainfuck.Text.Numeral

/-!
Quoted texts as error messages show them: between double quotes, with the quote, the backslash
and everything that would not show on a terminal escaped.
-/

namespace Brainfuck.Text

def escape (c : Char) : String :=
  match c with
  | '"' => "\\\""
  | '\\' => "\\\\"
  | '\x00' => "\\0"
  | '\t' => "\\t"
  | '\r' => "\\r"
  | '\n' => "\\n"
  | c =>
    if isInvisible c || isExtending c then
      "\\u\x7b" ++ hexDigits c.toNat ++ "\x7d"
    else
      c.toString

def quoted (s : String) : String :=
  "\"" ++ String.join (s.toList.map escape) ++ "\""

end Brainfuck.Text
