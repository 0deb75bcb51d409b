import Exposition.Text.Unprintable

/-!
# Quoted texts in messages

A message that shows a text given by the user puts it between double quotes, so that its ends and
its invisible characters can be seen.
-/

namespace Exposition

/-- One character of a quoted text: quotes, backslashes and the usual control characters behind a
backslash, other unprintable characters by their hexadecimal number. -/
def quotedChar (c : Char) : String :=
  match c with
  | '"' => "\\\""
  | '\\' => "\\\\"
  | '\n' => "\\n"
  | '\r' => "\\r"
  | '\t' => "\\t"
  | '\x00' => "\\0"
  | _ =>
    if isUnprintable c then "\\u\x7b" ++ String.ofList (Nat.toDigits 16 c.toNat) ++ "\x7d"
    else c.toString

/-- A text as a message shows it. -/
def quoted (s : String) : String := "\"" ++ String.join (s.toList.map quotedChar) ++ "\""

end Exposition
