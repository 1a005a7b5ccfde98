import SqlTree.Form.Record
import SqlTree.Name

/-! The JSON forms of names. Empty names are read as they are; only building refuses them. -/

namespace SqlTree

namespace Identifier

/-- The fields of an identifier. -/
def fields (i : Identifier) : Form.Fields := [("name", .text i.name)]

/-- The JSON form of an identifier. -/
def form (i : Identifier) : Json := .ofFields i.fields

/-- Reads the parts of an identifier. -/
def parts? : Form.Record Identifier := do
  return ⟨← Form.field? "name" Form.text?⟩

/-- Reads an identifier from its JSON form. -/
def ofForm? : Json → Option Identifier := Form.record? parts?

end Identifier

namespace Table

/-- The fields of a table. -/
def fields (t : Table) : Form.Fields :=
  [("schema", Form.optional Identifier.form t.schema), ("table", t.table.form)]

/-- The JSON form of a table. -/
def form (t : Table) : Json := .ofFields t.fields

/-- Reads the parts of a table. -/
def parts? : Form.Record Table := do
  return {
    schema := ← Form.optional? "schema" Identifier.ofForm?
    table := ← Form.field? "table" Identifier.ofForm? }

/-- Reads a table from its JSON form. -/
def ofForm? : Json → Option Table := Form.record? parts?

end Table

namespace Column

/-- The fields of a column. -/
def fields (c : Column) : Form.Fields := [("column", c.column.form)]

/-- The JSON form of a column. -/
def form (c : Column) : Json := .ofFields c.fields

/-- Reads the parts of a column. -/
def parts? : Form.Record Column := do
  return ⟨← Form.field? "column" Identifier.ofForm?⟩

/-- Reads a column from its JSON form. -/
def ofForm? : Json → Option Column := Form.record? parts?

end Column

namespace CteName

/-- The fields of the head of a common table expression. -/
def fields (n : CteName) : Form.Fields :=
  [("table", n.table.form), ("columns", Form.optional (Form.list Column.form) n.columns)]

/-- The JSON form of the head of a common table expression. -/
def form (n : CteName) : Json := .ofFields n.fields

/-- Reads the parts of the head of a common table expression. -/
def parts? : Form.Record CteName := do
  return {
    table := ← Form.field? "table" Identifier.ofForm?
    columns := ← Form.optional? "columns" (Form.list? Column.ofForm?) }

/-- Reads the head of a common table expression from its JSON form. -/
def ofForm? : Json → Option CteName := Form.record? parts?

end CteName

end SqlTree
