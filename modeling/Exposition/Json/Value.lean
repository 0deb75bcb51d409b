/-!
# Reading JSON

`Json.read?` reads a whole text as one JSON value.  A string may hold escapes for code units that
pair up to no character; such a string is accepted but stands for no text.  Numbers are checked and
their value is dropped, as nothing here needs it.
-/

namespace Exposition.Json

inductive Value
  | null
  | bool (value : Bool)
  | number
  /-- A string and its text, if it has one. -/
  | string (text : Option String)
  | array (items : List Value)
  | object (members : List (Option String × Value))

/-! ### White space, words and numbers -/

def isSpace (c : Char) : Bool := c == ' ' || c == '\t' || c == '\n' || c == '\r'

def skipSpace (s : List Char) : List Char := s.dropWhile isSpace

/-- What follows a run of at least one digit. -/
def afterDigits? (s : List Char) : Option (List Char) :=
  match s with
  | c :: rest => if c.isDigit then some (rest.dropWhile Char.isDigit) else none
  | [] => none

/-- What follows an integer without superfluous zeros. -/
def afterInteger? : List Char → Option (List Char)
  | '0' :: rest =>
    match rest with
    | c :: _ => if c.isDigit then none else some rest
    | [] => some rest
  | s => afterDigits? s

/-- What follows an optional fraction. -/
def afterFraction? : List Char → Option (List Char)
  | '.' :: rest => afterDigits? rest
  | s => some s

/-- What follows an optional sign. -/
def afterSign : List Char → List Char
  | '+' :: rest => rest
  | '-' :: rest => rest
  | s => s

/-- What follows an optional exponent. -/
def afterExponent? : List Char → Option (List Char)
  | [] => some []
  | c :: rest => if c = 'e' ∨ c = 'E' then afterDigits? (afterSign rest) else some (c :: rest)

/-- What follows a number. -/
def afterNumber? (s : List Char) : Option (List Char) :=
  let unsigned := match s with
    | '-' :: rest => rest
    | _ => s
  ((afterInteger? unsigned).bind afterFraction?).bind afterExponent?

/-! ### Strings -/

/-- A piece of a string: a character, or a code unit given by its number. -/
inductive StringUnit
  | char (c : Char)
  | unit (n : Nat)

def hexDigit? (c : Char) : Option Nat :=
  if c.isDigit then some (c.toNat - '0'.toNat)
  else if 'a' ≤ c ∧ c ≤ 'f' then some (c.toNat - 'a'.toNat + 10)
  else if 'A' ≤ c ∧ c ≤ 'F' then some (c.toNat - 'A'.toNat + 10)
  else none

def hexNumber? (digits : List Char) : Option Nat :=
  (digits.mapM hexDigit?).map (·.foldl (fun n d => 16 * n + d) 0)

/-- The character that a letter stands for behind a backslash. -/
def escapedLetter? (c : Char) : Option Char :=
  match c with
  | '"' => some '"'
  | '\\' => some '\\'
  | '/' => some '/'
  | 'b' => some '\x08'
  | 'f' => some '\x0c'
  | 'n' => some '\n'
  | 'r' => some '\r'
  | 't' => some '\t'
  | _ => none

/-- Reads the rest of a string up to its closing quote. -/
def readUnits? : List Char → Option (List StringUnit × List Char)
  | [] => none
  | '"' :: rest => some ([], rest)
  | '\\' :: 'u' :: a :: b :: c :: d :: rest => do
    let n ← hexNumber? [a, b, c, d]
    let (units, rest) ← readUnits? rest
    return (.unit n :: units, rest)
  | '\\' :: c :: rest => do
    let e ← escapedLetter? c
    let (units, rest) ← readUnits? rest
    return (.char e :: units, rest)
  | c :: rest =>
    if c.toNat < 0x20 ∨ c = '\\' then none
    else do
      let (units, rest) ← readUnits? rest
      return (.char c :: units, rest)

/-- The characters of a string, if every code unit is a character or half of a pair. -/
def unitsText? : List StringUnit → Option (List Char)
  | [] => some []
  | .char c :: rest => (unitsText? rest).map (c :: ·)
  | .unit n :: rest =>
    if n < 0xd800 ∨ 0xdfff < n then (unitsText? rest).map (Char.ofNat n :: ·)
    else if n ≤ 0xdbff then
      match rest with
      | .unit m :: rest =>
        if 0xdc00 ≤ m ∧ m ≤ 0xdfff then
          (unitsText? rest).map (Char.ofNat (0x10000 + (n - 0xd800) * 0x400 + (m - 0xdc00)) :: ·)
        else none
      | _ => none
    else none

/-- Reads a string behind its opening quote. -/
def readString? (s : List Char) : Option (Option String × List Char) :=
  (readUnits? s).map fun (units, rest) => ((unitsText? units).map String.ofList, rest)

/-! ### Values -/

/-- Reads the given word and gives its value. -/
def readWord? (word : String) (value : Value) (s : List Char) : Option (Value × List Char) :=
  (word.toList.isPrefixOf? s).map (value, ·)

mutual

/-- Reads a value behind optional white space; nests at most `fuel` deep. -/
def readValue? : Nat → List Char → Option (Value × List Char)
  | 0, _ => none
  | fuel + 1, s =>
    match skipSpace s with
    | '"' :: rest => (readString? rest).map fun (text, rest) => (.string text, rest)
    | '[' :: rest =>
      match skipSpace rest with
      | ']' :: rest => some (.array [], rest)
      | rest => (readItems? fuel rest).map fun (items, rest) => (.array items, rest)
    | '\x7b' :: rest =>
      match skipSpace rest with
      | '\x7d' :: rest => some (.object [], rest)
      | rest => (readMembers? fuel rest).map fun (members, rest) => (.object members, rest)
    | 't' :: rest => readWord? "rue" (.bool true) rest
    | 'f' :: rest => readWord? "alse" (.bool false) rest
    | 'n' :: rest => readWord? "ull" .null rest
    | rest => (afterNumber? rest).map (.number, ·)

/-- Reads the items of an array up to its end. -/
def readItems? : Nat → List Char → Option (List Value × List Char)
  | 0, _ => none
  | fuel + 1, s => do
    let (item, rest) ← readValue? fuel s
    match skipSpace rest with
    | ',' :: rest =>
      let (items, rest) ← readItems? fuel rest
      return (item :: items, rest)
    | ']' :: rest => return ([item], rest)
    | _ => none

/-- Reads the members of an object up to its end. -/
def readMembers? : Nat → List Char → Option (List (Option String × Value) × List Char)
  | 0, _ => none
  | fuel + 1, s =>
    match skipSpace s with
    | '"' :: rest => do
      let (key, rest) ← readString? rest
      match skipSpace rest with
      | ':' :: rest =>
        let (value, rest) ← readValue? fuel rest
        match skipSpace rest with
        | ',' :: rest =>
          let (members, rest) ← readMembers? fuel rest
          return ((key, value) :: members, rest)
        | '\x7d' :: rest => return ([(key, value)], rest)
        | _ => none
      | _ => none
    | _ => none

end

/-- Reads a whole text as one value.  Each step into a value goes past a character, so twice the
length is fuel enough. -/
def read? (s : List Char) : Option Value :=
  match readValue? (2 * s.length + 1) s with
  | some (value, rest) => if (skipSpace rest).isEmpty then some value else none
  | none => none

end Exposition.Json
