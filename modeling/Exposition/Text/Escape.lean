/-!
# Escaped text

Help texts, units, label values and quoted names are written with three escapes: a backslash for a
backslash, `\n` for a line feed and, where the text stands between quotes, `\"` for a quote.
`escape` writes them, `unescape` reads them and accepts no other; reading gives back what was
escaped (`unescape_escape`).  Most texts need no escapes: on strings, a text with nothing to escape
is written as it is, and one without a backslash is read as it is.
-/

namespace Exposition

/-- Why a text with escapes cannot be read. -/
inductive EscapeFault
  | unknown (escaped : Char)
  | unterminated
  deriving DecidableEq

def EscapeFault.message : EscapeFault → String
  | .unknown c => String.join ["invalid escape sequence '\\", c.toString, "'"]
  | .unterminated => "unterminated escape sequence"

/-- What is written for one character. -/
def escapeChar (quotes : Bool) (c : Char) : List Char :=
  if c = '\\' then ['\\', '\\']
  else if c = '\n' then ['\\', 'n']
  else if quotes && c = '"' then ['\\', '"']
  else [c]

/-- The escaped form of a text; quotes are escaped if `quotes` is set. -/
def escape (quotes : Bool) (s : List Char) : List Char := s.flatMap (escapeChar quotes)

/-- The character that an escape stands for. -/
def unescapeChar (quotes : Bool) (c : Char) : Option Char :=
  if c = '\\' then some '\\'
  else if c = 'n' then some '\n'
  else if quotes && c = '"' then some '"'
  else none

/-- The text that an escaped form stands for. -/
def unescape (quotes : Bool) : List Char → Except EscapeFault (List Char)
  | [] => .ok []
  | [c] => if c = '\\' then .error .unterminated else .ok [c]
  | c :: d :: rest =>
    if c = '\\' then
      match unescapeChar quotes d with
      | some e => (unescape quotes rest).map (e :: ·)
      | none => .error (.unknown d)
    else (unescape quotes (d :: rest)).map (c :: ·)

/-- A character that is no backslash stands for itself. -/
theorem unescape_cons {quotes : Bool} {c : Char} (h : c ≠ '\\') (s : List Char) :
    unescape quotes (c :: s) = (unescape quotes s).map (c :: ·) := by
  cases s <;> simp [unescape, h, Except.map]

/-- A backslash takes the character after it along. -/
theorem unescape_backslash {quotes : Bool} {d e : Char} (h : unescapeChar quotes d = some e)
    (s : List Char) : unescape quotes ('\\' :: d :: s) = (unescape quotes s).map (e :: ·) := by
  simp [unescape, h]

/-- Reading gives back every text that was escaped. -/
theorem unescape_escape (quotes : Bool) (s : List Char) :
    unescape quotes (escape quotes s) = .ok s := by
  induction s with
  | nil => rfl
  | cons c s ih =>
    have key : escape quotes (c :: s) = escapeChar quotes c ++ escape quotes s := rfl
    rw [key, escapeChar]
    split
    · next h => rw [List.cons_append, List.singleton_append, unescape_backslash rfl, ih, h]; rfl
    · next hb =>
      split
      · next h => rw [List.cons_append, List.singleton_append, unescape_backslash rfl, ih, h]; rfl
      · split
        · next h =>
          simp only [Bool.and_eq_true, decide_eq_true_eq] at h
          rw [List.cons_append, List.singleton_append,
            unescape_backslash (e := '"') (by simp [unescapeChar, h.1]), ih, h.2]
          rfl
        · rw [List.singleton_append, unescape_cons hb, ih]; rfl

/-! ### On strings -/

/-- Whether a character is written in another form. -/
def needsEscape (quotes : Bool) (c : Char) : Bool :=
  c == '\\' || c == '\n' || (quotes && c == '"')

theorem escapeChar_of_not_needsEscape {quotes : Bool} {c : Char} (h : needsEscape quotes c = false) :
    escapeChar quotes c = [c] := by
  simp only [needsEscape, Bool.or_eq_false_iff, beq_eq_false_iff_ne] at h
  obtain ⟨⟨hb, hn⟩, hq⟩ := h
  rw [escapeChar, if_neg hb, if_neg hn, if_neg (by simpa using hq)]

/-- A text in which no character needs an escape is its own escaped form. -/
theorem escape_of_not_any {quotes : Bool} {s : List Char} (h : s.any (needsEscape quotes) = false) :
    escape quotes s = s := by
  induction s with
  | nil => rfl
  | cons c s ih =>
    obtain ⟨hc, hs⟩ := Bool.or_eq_false_iff.1 h
    have hcons : escape quotes (c :: s) = escapeChar quotes c ++ escape quotes s := rfl
    rw [hcons, escapeChar_of_not_needsEscape hc, ih hs]
    rfl

/-- A text without a backslash stands for itself. -/
theorem unescape_of_not_mem {quotes : Bool} {s : List Char} (h : '\\' ∉ s) :
    unescape quotes s = .ok s := by
  induction s with
  | nil => rfl
  | cons c s ih =>
    obtain ⟨hc, hs⟩ := not_or.1 fun hor => h (List.mem_cons.2 hor)
    rw [unescape_cons (Ne.symm hc), ih hs]
    rfl

def escapeString (quotes : Bool) (s : String) : String :=
  if s.toList.any (needsEscape quotes) then String.ofList (escape quotes s.toList) else s

@[simp]
theorem toList_escapeString (quotes : Bool) (s : String) :
    (escapeString quotes s).toList = escape quotes s.toList := by
  unfold escapeString
  split
  · exact String.toList_ofList
  · next h => exact (escape_of_not_any (Bool.eq_false_iff.2 h)).symm

def unescapeString (quotes : Bool) (escaped : String) : Except EscapeFault String :=
  if escaped.toList.contains '\\' then (unescape quotes escaped.toList).map String.ofList
  else .ok escaped

theorem unescapeString_eq (quotes : Bool) (escaped : String) :
    unescapeString quotes escaped = (unescape quotes escaped.toList).map String.ofList := by
  unfold unescapeString
  split
  · rfl
  · next h =>
    rw [unescape_of_not_mem (by simpa using h)]
    exact congrArg Except.ok escaped.ofList_toList.symm

/-- A text between quotes, with its escapes. -/
def quoteEscaped (s : String) : String := "\"" ++ escapeString true s ++ "\""

end Exposition
