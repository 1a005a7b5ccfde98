import SqlTree.Error

/-! Identifiers, and the tables, columns and common table expressions they name. -/

namespace SqlTree

/-- A bare identifier, quoted by the dialect when it is written. -/
structure Identifier where
  name : String
deriving DecidableEq, Repr

/-- A table, with or without a schema. -/
structure Table where
  schema : Option Identifier
  table : Identifier
deriving DecidableEq, Repr

/-- An unqualified column. -/
structure Column where
  column : Identifier
deriving DecidableEq, Repr

/-- The head of a common table expression: its name, and names for its columns. -/
structure CteName where
  table : Identifier
  columns : Option (List Column)
deriving DecidableEq, Repr

namespace Identifier

/-- The identifier spelled by a text that is not empty. -/
def ofString (name : String) : Except Error Identifier :=
  if name.isEmpty then .error (.invalid .identifier .emptyName) else .ok ⟨name⟩

end Identifier

namespace Table

/-- A table without a schema. -/
def ofString (name : String) : Except Error Table := do
  return ⟨none, ← Identifier.ofString name⟩

/-- A table in a schema. -/
def qualified (schema name : String) : Except Error Table := do
  return ⟨some (← Identifier.ofString schema), ← Identifier.ofString name⟩

/-- The same table in the given schema. -/
def withSchema (t : Table) (schema : Identifier) : Table :=
  { t with schema := some schema }

/-- The table's own name, without its schema. -/
def name (t : Table) : String := t.table.name

end Table

namespace Column

/-- The column of a given name. -/
def ofString (name : String) : Except Error Column := do
  return ⟨← Identifier.ofString name⟩

end Column

namespace CteName

/-- A name for a common table expression; the columns are read first. -/
def ofStrings (name : String) (columns : Option (List String)) : Except Error CteName := do
  let columns ← columns.mapM (·.mapM Column.ofString)
  return ⟨← Identifier.ofString name, columns⟩

end CteName

end SqlTree
