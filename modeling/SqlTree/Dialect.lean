import SqlTree.Clause
import SqlTree.Kind
import SqlTree.Text
import SqlTree.Value
import SqlTree.Vocabulary

/-! Dialects: what engines spell differently, as data. -/

namespace SqlTree

/-- The pair of characters around an identifier. -/
structure Quotes where
  opening : Char
  closing : Char
deriving DecidableEq, Repr

/-- The mark a bound value leaves in the text: a question mark, or a sign and the position of
the value, counted from one. -/
inductive Placeholder where
  | question
  | numbered (sign : String)
deriving DecidableEq, Repr

/-- The text of the placeholder of the value at a position. -/
def Placeholder.text : Placeholder → Nat → String
  | .question, _ => "?"
  | .numbered sign, position => sign ++ toString position

/-- How the options of EXPLAIN are wrapped. -/
structure ExplainSyntax where
  opening : String
  delimiter : String
  assignment : String
  closing : String
deriving DecidableEq, Repr

/-- Options in parentheses, as in `EXPLAIN (ANALYZE, FORMAT JSON)`. -/
def ExplainSyntax.parenthesized : ExplainSyntax := ⟨"(", ", ", " ", ")"⟩

/-- Options without parentheses, as in `EXPLAIN ANALYZE FORMAT=JSON`. -/
def ExplainSyntax.bare : ExplainSyntax := ⟨"", " ", "=", ""⟩

/-- The rules of an engine. The defaults are those of an engine with no peculiarities. -/
structure Dialect where
  name : String
  quotes : Quotes
  placeholder : Placeholder
  /-- Whether the engine has syntax for a kind of node. -/
  supports : Kind → Bool := fun _ => true
  /-- The order in which the clauses of a statement are written. -/
  clauseOrder : StatementKind → List Clause := StatementKind.usualOrder
  trueLiteral : String := "TRUE"
  falseLiteral : String := "FALSE"
  /-- Whether a backslash is an escape character inside a string literal. -/
  backslashEscapes : Bool := false
  /-- Whether the engine has ILIKE; otherwise LIKE ignores case. -/
  hasILike : Bool := false
  /-- The syntax of the options of EXPLAIN, if it takes any. -/
  explainSyntax : Option ExplainSyntax := some .parenthesized
  /-- Written after the count of an OFFSET. -/
  offsetSuffix : String := ""
  /-- The keyword of an INSERT that skips conflicting rows, if there is one. -/
  insertIgnore : Option String := none

namespace Dialect

/-- An identifier in quotes. -/
def identifier (d : Dialect) (name : String) : String :=
  Text.quoted d.quotes.opening d.quotes.closing name

/-- A truth value. -/
def boolLiteral (d : Dialect) (b : Bool) : String :=
  if b then d.trueLiteral else d.falseLiteral

/-- A string literal. -/
def stringLiteral (d : Dialect) (s : String) : String :=
  let s := if d.backslashEscapes then String.ofList (Text.doubled '\\' s.toList) else s
  Text.quoted '\x27' '\x27' s

/-- The match that ignores case, or its negation. -/
def iLike (d : Dialect) (negated : Bool) : String :=
  let operator := if d.hasILike then "ILIKE" else "LIKE"
  if negated then "NOT " ++ operator else operator

/-- The spelling of an operator. -/
def operator (d : Dialect) : Operator → String
  | .iLike => d.iLike false
  | .notILike => d.iLike true
  | op => op.sql

/-- A byte string. -/
def bytesLiteral (bs : List UInt8) : String :=
  "X'" ++ String.ofList (bs.flatMap Text.upperByte) ++ "'"

mutual

/-- A value as a literal. -/
def literal (d : Dialect) : Value → String
  | .null => "NULL"
  | .bool b => d.boolLiteral b
  | .int n => toString n.toInt
  | .float x => Decimal.floatText Decimal.sqlStyle x
  | .text s => d.stringLiteral s
  | .bytes bs => bytesLiteral bs
  | .uuid u => d.stringLiteral u.text
  | .instant t => d.stringLiteral (t.text "+00:00")
  | .json j => d.stringLiteral j.render
  | .array items => "(" ++ ", ".intercalate (literals d items) ++ ")"
termination_by structural v => v

/-- The literals of a list of values. -/
def literals (d : Dialect) : List Value → List String
  | [] => []
  | v :: vs => literal d v :: literals d vs
termination_by structural vs => vs

end

end Dialect

end SqlTree
