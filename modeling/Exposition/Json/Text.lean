/-!
# JSON strings

The text of a string in JSON: quotes, backslashes and control characters are escaped, every other
character stands for itself.
-/

namespace Exposition.Json

/-- A number below 256 as two hexadecimal digits. -/
def hexPair (n : Nat) : List Char :=
  let digits := Nat.toDigits 16 n
  List.replicate (2 - digits.length) '0' ++ digits

def escapedChar (c : Char) : List Char :=
  match c with
  | '"' => ['\\', '"']
  | '\\' => ['\\', '\\']
  | '\n' => ['\\', 'n']
  | '\r' => ['\\', 'r']
  | '\t' => ['\\', 't']
  | '\x08' => ['\\', 'b']
  | '\x0c' => ['\\', 'f']
  | _ => if c.toNat < 0x20 then '\\' :: 'u' :: '0' :: '0' :: hexPair c.toNat else [c]

/-- A text as a JSON string. -/
def stringText (s : String) : String :=
  "\"" ++ String.ofList (s.toList.flatMap escapedChar) ++ "\""

/-- A member of an object, its value already written. -/
def memberText (key value : String) : String := stringText key ++ ":" ++ value

/-- An object, its members already written. -/
def objectText (members : List String) : String :=
  "\x7b" ++ String.intercalate "," members ++ "\x7d"

end Exposition.Json
