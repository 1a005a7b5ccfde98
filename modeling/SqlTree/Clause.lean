import SqlTree.Vocabulary

/-! The clauses of statements and the order in which they are written. -/

namespace SqlTree

/-- The four statements. -/
inductive StatementKind where
  | select | insert | update | delete
deriving DecidableEq, Repr

namespace StatementKind

/-- The name of a member. -/
def name : StatementKind → String
  | .select => "Select" | .insert => "Insert" | .update => "Update" | .delete => "Delete"

instance : Named StatementKind where
  all := [.select, .insert, .update, .delete]
  name := name

end StatementKind

/-- A place in the text of a statement. -/
inductive Clause where
  | explain | «with» | keyword | top | selections | into | columns | table | set | «from»
  | «using» | joins | «where» | groupBy | having | values | onConflict | returning | output
  | orderBy | limit | offset | endModifiers
deriving DecidableEq, Repr

namespace Clause

/-- The name of a member. -/
def name : Clause → String
  | .explain => "Explain" | .with => "With" | .keyword => "Keyword" | .top => "Top"
  | .selections => "Selections" | .into => "Into" | .columns => "Columns" | .table => "Table"
  | .set => "Set" | .from => "From" | .using => "Using" | .joins => "Joins" | .where => "Where"
  | .groupBy => "GroupBy" | .having => "Having" | .values => "Values"
  | .onConflict => "OnConflict" | .returning => "Returning" | .output => "Output"
  | .orderBy => "OrderBy" | .limit => "Limit" | .offset => "Offset"
  | .endModifiers => "EndModifiers"

instance : Named Clause where
  all :=
    [.explain, .with, .keyword, .top, .selections, .into, .columns, .table, .set, .from, .using,
     .joins, .where, .groupBy, .having, .values, .onConflict, .returning, .output, .orderBy,
     .limit, .offset, .endModifiers]
  name := name

end Clause

/-- The order of clauses that most engines share. -/
def StatementKind.usualOrder : StatementKind → List Clause
  | .select =>
    [.explain, .with, .keyword, .top, .selections, .from, .joins, .where, .groupBy, .having,
     .orderBy, .limit, .offset, .endModifiers]
  | .insert =>
    [.explain, .with, .keyword, .top, .into, .columns, .values, .onConflict, .returning, .output,
     .endModifiers]
  | .update =>
    [.explain, .with, .keyword, .table, .set, .from, .joins, .where, .returning, .output,
     .orderBy, .limit, .top, .endModifiers]
  | .delete =>
    [.explain, .with, .keyword, .from, .using, .joins, .where, .returning, .output, .orderBy,
     .limit, .top, .endModifiers]

end SqlTree
