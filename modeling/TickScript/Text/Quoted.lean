import TickScript.Document
import TickScript.Text.Unmarked

/-!
# Quoted names

Messages and descriptions show names and paths in double quotes. Quotes, backslashes and
line breaks are escaped, and so is every character that leaves no mark of its own, by its
number in braces.
-/

namespace TickScript

namespace Quoted

/-- The number of a character in hexadecimal digits. -/
def hexadecimal : (steps n : Nat) → List Char
  | 0, _ => []
  | steps + 1, n =>
    if n < 16 then [Document.hexDigit n]
    else hexadecimal steps (n / 16) ++ [Document.hexDigit (n % 16)]

/-- A character between double quotes. -/
def escape (c : Char) : List Char :=
  match c with
  | '\x00' => ['\\', '0']
  | '\t' => ['\\', 't']
  | '\r' => ['\\', 'r']
  | '\n' => ['\\', 'n']
  | '\\' => ['\\', '\\']
  | '"' => ['\\', '"']
  | c =>
    if Unmarked.contains c then ['\\', 'u', '\x7b'] ++ hexadecimal 6 c.toNat ++ ['\x7d']
    else [c]

/-- A name or a path in quotes. -/
def quote (s : String) : String :=
  "\"" ++ String.ofList (s.toList.flatMap escape) ++ "\""

end Quoted

end TickScript
