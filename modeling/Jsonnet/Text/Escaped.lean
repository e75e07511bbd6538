import Jsonnet.Text.Unprintable
import Jsonnet.Text.Extending

/-!
# Escaped text

A string inside a diagnostic stands between double quotes. Quotes, backslashes, the
usual controls, unprintable and extending characters are escaped, so that the text
shows exactly which characters the string holds.
-/

namespace Jsonnet.Text

/-- One character of escaped text. -/
def escapeChar (c : Char) : List Char :=
  match c with
  | '\x00' => ['\\', '0']
  | '\t' => ['\\', 't']
  | '\r' => ['\\', 'r']
  | '\n' => ['\\', 'n']
  | '"' => ['\\', '"']
  | '\\' => ['\\', '\\']
  | c =>
    if isExtending c || isUnprintable c then
      ['\\', 'u', '\x7b'] ++ Nat.toDigits 16 c.toNat ++ ['\x7d']
    else [c]

/-- The escaped text of a string, between its quotes. -/
def escaped (s : String) : String :=
  String.ofList ('"' :: s.toList.flatMap escapeChar ++ ['"'])

end Jsonnet.Text
