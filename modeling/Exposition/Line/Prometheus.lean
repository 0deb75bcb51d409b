import Exposition.Grammar.Expected
import Exposition.Line.Statement
import Exposition.Name

/-!
# The lines of the Prometheus text format

Spaces and tabs may stand around every token, a comma may follow the last label, and blank lines
and comments say nothing.  A comment that begins like a help or type line has to be one.
-/

namespace Exposition.Prometheus

open Grammar

/-- The named rules of a line, in the order in which messages list them. -/
inductive Rule
  | endOfLine | name | escaped | label | labels | number | timestamp | sample | text | typeKeyword
  | help | type | comment | line
  deriving DecidableEq

namespace Rule

/-- What a message calls a rule. -/
def title : Rule → String
  | endOfLine => "EOI"
  | name => "metricname"
  | escaped => "escaped_string"
  | label => "label"
  | labels => "labels"
  | number => "number"
  | timestamp => "timestamp"
  | sample => "metric"
  | text => "text"
  | typeKeyword => "metrictype"
  | help => "kw_help"
  | type => "kw_type"
  | comment => "comment"
  | line => "line"

def all : List Rule :=
  [endOfLine, name, escaped, label, labels, number, timestamp, sample, text, typeKeyword, help,
    type, comment, line]

end Rule

/-! ### Blanks -/

def isBlank (c : Char) : Bool := c == ' ' || c == '\t'

def blanks : Grammar Rule (List Char) := many (char isBlank)

def blanks1 : Grammar Rule (Char × List Char) := some1 isBlank

/-- A part with blanks in front of it. -/
def afterBlanks {α : Type} (g : Grammar Rule α) : Grammar Rule α := skipLeft blanks g

/-- A part with at least one blank in front of it. -/
def spaced {α : Type} (g : Grammar Rule α) : Grammar Rule α := skipLeft blanks1 g

/-! ### Tokens -/

def name : Grammar Rule (List Char) :=
  token .name (seq (char startsName) (many (char continuesName)))

/-- What stands between quotes: a backslash takes the character after it along. -/
def escaped : Grammar Rule (List Char) :=
  token .escaped (many (choice
    (skipLeft (oneChar '\\') (char fun _ => true))
    (char fun c => c != '"' && c != '\\')))

def number : Grammar Rule (List Char) := token .number (some1 fun c => !isBlank c)

def timestamp : Grammar Rule (List Char) :=
  token .timestamp (seq (optional (oneChar '-')) (some1 Char.isDigit))

def text : Grammar Rule (List Char) := token .text (many (char fun _ => true))

def typeKeyword : Grammar Rule (List Char) := token .typeKeyword (some1 Char.isAlpha)

/-! ### Samples -/

def quotation : Grammar Rule (List Char) :=
  skipLeft (oneChar '"') (skipRight escaped (oneChar '"'))

def label : Grammar Rule WrittenLabel :=
  rule .label (map (fun (n, v) => ⟨.bare n, v⟩)
    (seq name (afterBlanks (skipLeft (oneChar '=') (afterBlanks quotation)))))

/-- At least one label, and perhaps a comma after the last. -/
def labelList : Grammar Rule (List WrittenLabel) :=
  skipRight
    (separated label (skipRight (afterBlanks (oneChar ',')) blanks))
    (optional (afterBlanks (oneChar ',')))

def labels : Grammar Rule (List WrittenLabel) :=
  rule .labels (skipLeft (skipRight (oneChar '\x7b') blanks)
    (skipRight (map (·.getD []) (optional labelList)) (afterBlanks (oneChar '\x7d'))))

def sample : Grammar Rule WrittenSample :=
  rule .sample (map (fun (n, ls, v, t) => ⟨.bare n, ls.getD [], v, t, none⟩)
    (seq name (seq (optional (afterBlanks labels))
      (seq (spaced number) (optional (spaced timestamp))))))

/-! ### Lines -/

def help : Grammar Rule Statement :=
  rule .help (map (fun (n, t) => .help (.bare n) t)
    (skipLeft (oneChar '#') (skipLeft (spaced (literal "HELP".toList))
      (seq (spaced name) (optional (spaced text))))))

def type : Grammar Rule Statement :=
  rule .type (map (fun (n, k) => .type (.bare n) k)
    (skipLeft (oneChar '#') (skipLeft (spaced (literal "TYPE".toList))
      (seq (spaced name) (spaced typeKeyword)))))

/-- The words that make a comment a help or type line. -/
def keyword : Grammar Rule (Char × List Char) :=
  skipLeft (spaced (choice (literal "HELP".toList) (literal "TYPE".toList))) blanks1

def comment : Grammar Rule Statement :=
  rule .comment (map (fun _ => .blank)
    (skipLeft (oneChar '#') (skipLeft (notAhead keyword) (many (char fun _ => true)))))

def line : Grammar Rule Statement :=
  rule .line (afterBlanks (skipRight
    (map (·.getD .blank) (optional
      (choice help (choice type (choice comment (map .sample sample))))))
    (afterBlanks (rule .endOfLine finish))))

end Exposition.Prometheus
