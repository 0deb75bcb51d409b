import Exposition.Grammar.Expected
import Exposition.Line.Statement
import Exposition.Name

/-!
# The lines of OpenMetrics

Every space counts, names may be quoted, and a metric name that has to be quoted stands inside the
braces.  Any character may follow a backslash here; which escapes mean something is decided when
the text is read.
-/

namespace Exposition.OpenMetrics

open Grammar

/-- The named rules of a line, in the order in which messages list them. -/
inductive Rule
  | endOfLine | name | escaped | quotedName | label | labels | quotedSeries | number | timestamp
  | exemplar | sample | text | typeKeyword | help | type | unit | eof | line
  deriving DecidableEq

namespace Rule

/-- What a message calls a rule. -/
def title : Rule → String
  | endOfLine => "EOI"
  | name => "metricname"
  | escaped => "escaped_string"
  | quotedName => "quoted_name"
  | label => "label"
  | labels => "labels"
  | quotedSeries => "quoted_series"
  | number => "number"
  | timestamp => "timestamp"
  | exemplar => "exemplar"
  | sample => "sample"
  | text => "text"
  | typeKeyword => "metrictype"
  | help => "kw_help"
  | type => "kw_type"
  | unit => "kw_unit"
  | eof => "kw_eof"
  | line => "line"

def all : List Rule :=
  [endOfLine, name, escaped, quotedName, label, labels, quotedSeries, number, timestamp, exemplar,
    sample, text, typeKeyword, help, type, unit, eof, line]

end Rule

/-! ### Tokens -/

def name : Grammar Rule (List Char) :=
  token .name (seq (char startsName) (many (char continuesName)))

/-- What stands between quotes: a backslash takes the character after it along. -/
def escaped : Grammar Rule (List Char) :=
  token .escaped (many (choice
    (skipLeft (oneChar '\\') (char fun _ => true))
    (char fun c => c != '"' && c != '\\')))

def number : Grammar Rule (List Char) := token .number (some1 (· != ' '))

def timestamp : Grammar Rule (List Char) :=
  token .timestamp (seq (char fun c => c != '#' && c != ' ') (many (char (· != ' '))))

def text : Grammar Rule (List Char) := token .text (many (char fun _ => true))

def typeKeyword : Grammar Rule (List Char) := token .typeKeyword (some1 Char.isAlpha)

/-! ### Names and labels -/

def quotation : Grammar Rule (List Char) :=
  skipLeft (oneChar '"') (skipRight escaped (oneChar '"'))

def quotedName : Grammar Rule WrittenName := rule .quotedName (map .quoted quotation)

def anyName : Grammar Rule WrittenName := choice (map .bare name) quotedName

def label : Grammar Rule WrittenLabel :=
  rule .label (map (fun (n, v) => ⟨n, v⟩) (seq anyName (skipLeft (oneChar '=') quotation)))

def labels : Grammar Rule (List WrittenLabel) :=
  rule .labels (skipLeft (oneChar '\x7b')
    (skipRight (map (·.getD []) (optional (separated label (oneChar ',')))) (oneChar '\x7d')))

/-- A quoted metric name and further labels inside one pair of braces. -/
def quotedSeries : Grammar Rule (WrittenName × List WrittenLabel) :=
  rule .quotedSeries (skipLeft (oneChar '\x7b')
    (skipRight (seq quotedName (many (skipLeft (oneChar ',') label))) (oneChar '\x7d')))

/-! ### Samples -/

def spaced {α : Type} (g : Grammar Rule α) : Grammar Rule α := skipLeft (oneChar ' ') g

def exemplar : Grammar Rule WrittenExemplar :=
  rule .exemplar (map (fun (ls, v, t) => ⟨ls, v, t⟩)
    (skipLeft (literal [' ', '#', ' '])
      (seq labels (seq (spaced number) (optional (spaced timestamp))))))

def series : Grammar Rule (WrittenName × List WrittenLabel) :=
  choice (map (fun (n, ls) => (.bare n, ls.getD [])) (seq name (optional labels))) quotedSeries

def sample : Grammar Rule WrittenSample :=
  rule .sample (map (fun ((n, ls), v, t, e) => ⟨n, ls, v, t, e⟩)
    (seq series (seq (spaced number) (seq (optional (spaced timestamp)) (optional exemplar)))))

/-! ### Lines -/

def help : Grammar Rule Statement :=
  rule .help (map (fun (n, t) => .help n t)
    (skipLeft (literal "# HELP ".toList) (seq anyName (optional (spaced text)))))

def type : Grammar Rule Statement :=
  rule .type (map (fun (n, k) => .type n k)
    (skipLeft (literal "# TYPE ".toList) (seq anyName (spaced typeKeyword))))

def unit : Grammar Rule Statement :=
  rule .unit (map (fun (n, t) => .unit n t)
    (skipLeft (literal "# UNIT ".toList) (seq anyName (optional (spaced text)))))

def eof : Grammar Rule Statement := rule .eof (map (fun _ => .eof) (literal "# EOF".toList))

def line : Grammar Rule Statement :=
  rule .line (skipRight
    (choice eof (choice help (choice type (choice unit (map .sample sample)))))
    (rule .endOfLine finish))

end Exposition.OpenMetrics
