import SqlTree.Form.Name
import SqlTree.Form.Value
import SqlTree.Node

/-! The JSON form of trees. A node is an object that names its kind beside its fields; a node in a
slot for one kind leaves the kind out. Every field is written, null where there is nothing. -/

namespace SqlTree

namespace Form

/-- An object that names its kind. -/
def tagged (k : Kind) (fs : Fields) : Json := .ofFields (("kind", name k) :: fs)

/-- An optional object with a single field. -/
def optionalOnly (name : String) (j : Option Json) : Json := optional (only name) j

/-- An optional object whose single field is a list. -/
def optionalItems (name : String) (js : Option (List Json)) : Json :=
  optional (fun js => only name (.array js)) js

/-- Selections in a slot for selections. -/
def selections (js : List Json) : Json := list (only "selection") js

/-- A RETURNING clause in a slot for one. -/
def optionalReturning (js : Option (List Json)) : Json :=
  optional (fun js => only "selections" (selections js)) js

/-- Rows in a slot for rows. -/
def rows (rs : List (List Json)) : Json := list (fun r => only "values" (.array r)) rs

/-- An optional list. -/
def optionalList (js : Option (List Json)) : Json := optional .array js

end Form

/-- The fields of a TOP clause. -/
def Top.fields (t : Top) : Form.Fields :=
  [("expression", .int t.count.toNat), ("modifiers", Form.optional Form.name t.modifier)]

/-- The JSON form of a TOP clause. -/
def Top.form (t : Top) : Json := .ofFields t.fields

mutual

/-- The fields of a node, beside its kind. -/
def Node.formFields : Node → Form.Fields
  | .identifier i => i.fields
  | .table t => t.fields
  | .column c => c.fields
  | .reference t c =>
    [("table", Form.optional Table.form t), ("column", Form.tagged c.kind c.formFields)]
  | .selectAll => []
  | .alias n i => [("node", Form.tagged n.kind n.formFields), ("alias", i.form)]
  | .value v immediate => [("value", v.form), ("immediate", .bool immediate)]
  | .valueList ns => [("values", .array (Node.forms ns))]
  | .raw fragments ns =>
    [("sql_fragments", Form.list .text fragments), ("parameters", .array (Node.forms ns))]
  | .operator op => [("operator", Form.name op)]
  | .binary l op r =>
    [("left", Form.tagged l.kind l.formFields), ("operator", Form.only "operator" (Form.name op)),
     ("right", Form.tagged r.kind r.formFields)]
  | .unary op n =>
    [("operator", Form.only "operator" (Form.name op)),
     ("operand", Form.tagged n.kind n.formFields)]
  | .and l r =>
    [("left", Form.tagged l.kind l.formFields), ("right", Form.tagged r.kind r.formFields)]
  | .or l r =>
    [("left", Form.tagged l.kind l.formFields), ("right", Form.tagged r.kind r.formFields)]
  | .parens n => [("node", Form.tagged n.kind n.formFields)]
  | .function f ns => [("name", .text f), ("arguments", .array (Node.forms ns))]
  | .from ns => [("froms", .array (Node.forms ns))]
  | .using ns => [("tables", .array (Node.forms ns))]
  | .join j => j.fields
  | .on n => [("on", Form.tagged n.kind n.formFields)]
  | .where n => [("predicate", Form.tagged n.kind n.formFields)]
  | .selection n => [("selection", Form.tagged n.kind n.formFields)]
  | .returning ns => [("selections", Form.selections (Node.forms ns))]
  | .output ns => [("selections", .array (Node.forms ns))]
  | .orderBy items => [("items", .array (SortItem.forms items))]
  | .orderByItem item => item.fields
  | .groupBy ns => [("items", .array (Node.forms ns))]
  | .having n => [("predicate", Form.tagged n.kind n.formFields)]
  | .limit n => [("limit", Form.tagged n.kind n.formFields)]
  | .offset n => [("offset", Form.tagged n.kind n.formFields)]
  | .top t => t.fields
  | .explain e => e.fields
  | .with w => w.fields
  | .cte c => c.fields
  | .cteName n => n.fields
  | .assignment a => a.fields
  | .values rs => [("rows", Form.rows (Node.formRows rs))]
  | .onConflict c => c.fields
  | .modifier m => [("modifier", Form.name m)]
  | .select q => q.fields
  | .insert q => q.fields
  | .update q => q.fields
  | .delete q => q.fields
termination_by structural x => x

def Node.forms : List Node → List Json
  | [] => []
  | n :: ns => Form.tagged n.kind n.formFields :: Node.forms ns
termination_by structural x => x

def Node.formRows : List (List Node) → List (List Json)
  | [] => []
  | r :: rs => Node.forms r :: Node.formRows rs
termination_by structural x => x

def Node.formOpt : Option Node → Option Json
  | none => none
  | some n => some (Form.tagged n.kind n.formFields)
termination_by structural x => x

def Node.formsOpt : Option (List Node) → Option (List Json)
  | none => none
  | some ns => some (Node.forms ns)
termination_by structural x => x

def SortItem.fields : SortItem Node → Form.Fields
  | ⟨expr, direction⟩ =>
    [("order_by", Form.tagged expr.kind expr.formFields),
     ("direction", Form.optional Form.name direction)]
termination_by structural x => x

def SortItem.forms : List (SortItem Node) → List Json
  | [] => []
  | i :: is => .ofFields i.fields :: SortItem.forms is
termination_by structural x => x

def SortItem.formsOpt : Option (List (SortItem Node)) → Option (List Json)
  | none => none
  | some is => some (SortItem.forms is)
termination_by structural x => x

def Join.fields : Join Node → Form.Fields
  | ⟨type, table, condition⟩ =>
    [("join_type", Form.name type), ("table", Form.tagged table.kind table.formFields),
     ("on", Form.optionalOnly "on" (Node.formOpt condition))]
termination_by structural x => x

def Join.forms : List (Join Node) → List Json
  | [] => []
  | j :: js => .ofFields j.fields :: Join.forms js
termination_by structural x => x

def Join.formsOpt : Option (List (Join Node)) → Option (List Json)
  | none => none
  | some js => some (Join.forms js)
termination_by structural x => x

def Explain.fields : Explain Node → Form.Fields
  | ⟨format, options⟩ =>
    [("format", Form.optional Form.name format),
     ("options", Form.optional id (Node.formOpt options))]
termination_by structural x => x

def Explain.formOpt : Option (Explain Node) → Json
  | none => .null
  | some e => .ofFields e.fields
termination_by structural x => x

def Cte.fields : Cte Node → Form.Fields
  | ⟨name, materialized, body⟩ =>
    [("name", name.form), ("materialized", Form.optional .bool materialized),
     ("expression", Form.tagged body.kind body.formFields)]
termination_by structural x => x

def Cte.forms : List (Cte Node) → List Json
  | [] => []
  | c :: cs => .ofFields c.fields :: Cte.forms cs
termination_by structural x => x

def With.fields : With Node → Form.Fields
  | ⟨isRecursive, ctes⟩ =>
    [("recursive", .bool isRecursive), ("expressions", .array (Cte.forms ctes))]
termination_by structural x => x

def With.formOpt : Option (With Node) → Json
  | none => .null
  | some w => .ofFields w.fields
termination_by structural x => x

def Assignment.fields : Assignment Node → Form.Fields
  | ⟨column, value⟩ =>
    [("column", column.form), ("value", Form.tagged value.kind value.formFields)]
termination_by structural x => x

def Assignment.forms : List (Assignment Node) → List Json
  | [] => []
  | a :: as => .ofFields a.fields :: Assignment.forms as
termination_by structural x => x

def Assignment.formsOpt : Option (List (Assignment Node)) → Option (List Json)
  | none => none
  | some as => some (Assignment.forms as)
termination_by structural x => x

def OnConflict.fields : OnConflict Node → Form.Fields
  | ⟨columns, constraint, doNothing, updates, updateWhere⟩ =>
    [("columns", Form.optional (Form.list Column.form) columns),
     ("constraint", Form.optional Identifier.form constraint),
     ("do_nothing", .bool doNothing),
     ("updates", Form.optionalList (Assignment.formsOpt updates)),
     ("update_where", Form.optionalOnly "predicate" (Node.formOpt updateWhere))]
termination_by structural x => x

def OnConflict.formOpt : Option (OnConflict Node) → Json
  | none => .null
  | some c => .ofFields c.fields
termination_by structural x => x

def Select.fields : Select Node → Form.Fields
  | ⟨fromItems, selections, distinct, joins, whereClause, groupBy, having, orderBy, limit, offset,
      withClause, explain, top, endModifiers⟩ =>
    [("from", Form.optionalItems "froms" (Node.formsOpt fromItems)),
     ("selections", Form.optional Form.selections (Node.formsOpt selections)),
     ("distinct", .bool distinct),
     ("joins", Form.optionalList (Join.formsOpt joins)),
     ("where_clause", Form.optionalOnly "predicate" (Node.formOpt whereClause)),
     ("group_by", Form.optionalItems "items" (Node.formsOpt groupBy)),
     ("having", Form.optionalOnly "predicate" (Node.formOpt having)),
     ("order_by", Form.optionalItems "items" (SortItem.formsOpt orderBy)),
     ("limit", Form.optionalOnly "limit" (Node.formOpt limit)),
     ("offset", Form.optionalOnly "offset" (Node.formOpt offset)),
     ("with", With.formOpt withClause),
     ("explain", Explain.formOpt explain),
     ("top", Form.optional Top.form top),
     ("end_modifiers", Form.optionalList (Node.formsOpt endModifiers))]
termination_by structural x => x

def Insert.fields : Insert Node → Form.Fields
  | ⟨into, columns, source, defaultValues, ignore, onConflict, returning, output, withClause,
      explain, top, endModifiers⟩ =>
    [("into", into.form),
     ("columns", Form.optional (Form.list Column.form) columns),
     ("values", Form.optional id (Node.formOpt source)),
     ("default_values", .bool defaultValues),
     ("ignore", .bool ignore),
     ("on_conflict", OnConflict.formOpt onConflict),
     ("returning", Form.optionalReturning (Node.formsOpt returning)),
     ("output", Form.optionalItems "selections" (Node.formsOpt output)),
     ("with", With.formOpt withClause),
     ("explain", Explain.formOpt explain),
     ("top", Form.optional Top.form top),
     ("end_modifiers", Form.optionalList (Node.formsOpt endModifiers))]
termination_by structural x => x

def Update.fields : Update Node → Form.Fields
  | ⟨table, assignments, fromItems, joins, whereClause, returning, output, withClause, orderBy,
      limit, top, explain, endModifiers⟩ =>
    [("table", Form.tagged table.kind table.formFields),
     ("updates", Form.optionalList (Assignment.formsOpt assignments)),
     ("from", Form.optionalItems "froms" (Node.formsOpt fromItems)),
     ("joins", Form.optionalList (Join.formsOpt joins)),
     ("where_clause", Form.optionalOnly "predicate" (Node.formOpt whereClause)),
     ("returning", Form.optionalReturning (Node.formsOpt returning)),
     ("output", Form.optionalItems "selections" (Node.formsOpt output)),
     ("with", With.formOpt withClause),
     ("order_by", Form.optionalItems "items" (SortItem.formsOpt orderBy)),
     ("limit", Form.optionalOnly "limit" (Node.formOpt limit)),
     ("top", Form.optional Top.form top),
     ("explain", Explain.formOpt explain),
     ("end_modifiers", Form.optionalList (Node.formsOpt endModifiers))]
termination_by structural x => x

def Delete.fields : Delete Node → Form.Fields
  | ⟨fromItems, usingItems, joins, whereClause, returning, withClause, orderBy, limit, explain,
      endModifiers, top, output⟩ =>
    [("from", Form.only "froms" (.array (Node.forms fromItems))),
     ("using", Form.optionalItems "tables" (Node.formsOpt usingItems)),
     ("joins", Form.optionalList (Join.formsOpt joins)),
     ("where_clause", Form.optionalOnly "predicate" (Node.formOpt whereClause)),
     ("returning", Form.optionalReturning (Node.formsOpt returning)),
     ("with", With.formOpt withClause),
     ("order_by", Form.optionalItems "items" (SortItem.formsOpt orderBy)),
     ("limit", Form.optionalOnly "limit" (Node.formOpt limit)),
     ("explain", Explain.formOpt explain),
     ("end_modifiers", Form.optionalList (Node.formsOpt endModifiers)),
     ("top", Form.optional Top.form top),
     ("output", Form.optionalItems "selections" (Node.formsOpt output))]
termination_by structural x => x

end

/-- The JSON form of a node. -/
def Node.form (n : Node) : Json := Form.tagged n.kind n.formFields

end SqlTree
