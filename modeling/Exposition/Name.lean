import Exposition.Text.Escape

/-!
# Names

Metric and label names.  A *plain* name is an ASCII letter, an underscore or a colon followed by
such characters and digits; any other name is written as a quoted text.
-/

namespace Exposition

def startsName (c : Char) : Bool := c.isAlpha || c == '_' || c == ':'

def continuesName (c : Char) : Bool := c.isAlphanum || c == '_' || c == ':'

/-- Whether a text is a plain name. -/
def isPlainName : List Char → Bool
  | [] => false
  | c :: rest => startsName c && rest.all continuesName

/-- A name as it stands in a line. -/
def writeName (name : String) : String :=
  if isPlainName name.toList then name else quoteEscaped name

/-- The suffix of the samples of a counter. -/
def totalSuffix : String := "_total"

/-- What a name continues with after a given beginning. -/
def afterStart? (start name : String) : Option String :=
  (start.toList.isPrefixOf? name.toList).map String.ofList

/-- What a name begins with before a given ending. -/
def beforeEnd? (ending name : String) : Option String :=
  (ending.toList.isSuffixOf? name.toList).map String.ofList

end Exposition
