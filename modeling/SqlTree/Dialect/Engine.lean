import SqlTree.Dialect

/-! The built-in dialects. -/

namespace SqlTree

/-- Double quotes around an identifier. -/
def Quotes.double : Quotes := ⟨'\x22', '\x22'⟩

/-- Backticks around an identifier. -/
def Quotes.backtick : Quotes := ⟨'\x60', '\x60'⟩

/-- Square brackets around an identifier. -/
def Quotes.bracket : Quotes := ⟨'[', ']'⟩

/-- The engines with a built-in dialect. -/
inductive Engine where
  | postgres | mysql | sqlite | sqlserver
deriving DecidableEq, Repr

namespace Engine

/-- The name of a member. -/
def name : Engine → String
  | .postgres => "postgres" | .mysql => "mysql" | .sqlite => "sqlite"
  | .sqlserver => "sqlserver"

instance : Named Engine where
  all := [.postgres, .mysql, .sqlite, .sqlserver]
  name := name

/-- The clause orders of SQL Server: TOP right after the keyword, OUTPUT between the target and
the rows, OFFSET before LIMIT, and no joins in a DELETE. -/
def sqlserverOrder : StatementKind → List Clause
  | .select =>
    [.explain, .with, .keyword, .top, .selections, .from, .joins, .where, .groupBy, .having,
     .orderBy, .offset, .limit, .endModifiers]
  | .insert =>
    [.explain, .with, .keyword, .top, .into, .columns, .output, .values, .onConflict, .returning,
     .endModifiers]
  | .update =>
    [.explain, .with, .keyword, .top, .table, .set, .output, .from, .joins, .where, .returning,
     .orderBy, .limit, .endModifiers]
  | .delete =>
    [.explain, .with, .keyword, .top, .from, .output, .using, .where, .returning, .orderBy,
     .limit, .endModifiers]

/-- The dialect of an engine. -/
def dialect : Engine → Dialect
  | .postgres =>
    { name := "postgres"
      quotes := .double
      placeholder := .numbered "$"
      supports := fun k => !([.top, .output] : List Kind).contains k
      trueLiteral := "true"
      falseLiteral := "false"
      hasILike := true }
  | .mysql =>
    { name := "mysql"
      quotes := .backtick
      placeholder := .question
      supports := fun k => !([.top, .output, .returning, .onConflict] : List Kind).contains k
      trueLiteral := "1"
      falseLiteral := "0"
      backslashEscapes := true
      explainSyntax := some .bare
      insertIgnore := some "INSERT IGNORE" }
  | .sqlite =>
    { name := "sqlite"
      quotes := .double
      placeholder := .question
      supports := fun k => !([.top, .output, .using, .modifier] : List Kind).contains k
      trueLiteral := "1"
      falseLiteral := "0"
      explainSyntax := none
      insertIgnore := some "INSERT OR IGNORE" }
  | .sqlserver =>
    { name := "sqlserver"
      quotes := .bracket
      placeholder := .numbered "@p"
      supports := fun k =>
        !([.limit, .using, .returning, .onConflict, .explain, .modifier] : List Kind).contains k
      clauseOrder := sqlserverOrder
      trueLiteral := "1"
      falseLiteral := "0"
      explainSyntax := none
      offsetSuffix := " ROWS" }

end Engine

end SqlTree
