import SqlTree.Node.Build
import SqlTree.Pass.Basic

/-! Qualifying tables with a schema. Names that a WITH clause binds are left alone inside its
statement. -/

namespace SqlTree

/-- The names a statement binds by its WITH clause; none for other nodes. -/
def Node.scope? : Node → Option (List String)
  | .select q => some ((q.withClause.map (·.names)).getD [])
  | .insert q => some ((q.withClause.map (·.names)).getD [])
  | .update q => some ((q.withClause.map (·.names)).getD [])
  | .delete q => some ((q.withClause.map (·.names)).getD [])
  | _ => none

/-- The names bound by the statements around a node, the innermost first. -/
abbrev Scopes := List (List String)

namespace Scopes

/-- Whether one of the statements binds a name. -/
def binds (s : Scopes) (name : String) : Bool := s.any (·.contains name)

end Scopes

/-- A table in the schema, unless it has one or its name is bound. -/
def Table.qualify? (schema : Identifier) (s : Scopes) (t : Table) : Option Table :=
  if t.schema.isNone && !s.binds t.name then some (t.withSchema schema) else none

/-- Puts every table without a schema into the given one. -/
def Pass.qualify (schema : Identifier) : Pass Scopes where
  enter n s :=
    match n.scope? with
    | some names => names :: s
    | none => s
  substitute
    | .table t => fun s => (.ok ((t.qualify? schema s).map .table), s)
    | _ => return none
  leave n s := if n.scope?.isSome then s.drop 1 else s

/-- The tree with every table without a schema in the given one. -/
def Node.qualify (schema : Identifier) (n : Node) : Except Error Node :=
  ((n.apply (.qualify schema)).run []).1

end SqlTree
