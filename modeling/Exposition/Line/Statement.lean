import Exposition.Line.Basic

/-!
# Statements

A statement is a line as it is written: names may be quoted, texts still have their escapes, and
numbers are the characters that stand for them.  The line grammars read statements; turning one
into a `Line` is a second step that can fail for reasons of its own.
-/

namespace Exposition

/-- A name, bare or between quotes with its escapes. -/
inductive WrittenName
  | bare (text : List Char)
  | quoted (escaped : List Char)
  deriving DecidableEq

structure WrittenLabel where
  name : WrittenName
  /-- What stands between the quotes, with its escapes. -/
  value : List Char
  deriving DecidableEq

structure WrittenExemplar where
  labels : List WrittenLabel
  value : List Char
  timestamp : Option (List Char)
  deriving DecidableEq

structure WrittenSample where
  name : WrittenName
  labels : List WrittenLabel
  value : List Char
  timestamp : Option (List Char)
  exemplar : Option WrittenExemplar
  deriving DecidableEq

inductive Statement
  | help (name : WrittenName) (text : Option (List Char))
  | type (name : WrittenName) (keyword : List Char)
  | unit (name : WrittenName) (text : Option (List Char))
  | sample (sample : WrittenSample)
  | eof
  | blank
  deriving DecidableEq

end Exposition
