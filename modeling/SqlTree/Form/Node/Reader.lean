import SqlTree.Form.Node

/-! Reading trees from their JSON form. The readers here are given a reader for the nodes inside;
`Node.ofForm?` closes the circle, since a document holds no deeper nesting of nodes than its own. -/

namespace SqlTree

namespace Form

variable {α : Type}

/-- An expression to sort by. -/
def sortItem? (node : Json → Option α) : Record (SortItem α) := do
  return {
    expr := ← field? "order_by" node
    direction := ← optional? "direction" (named? .node) }

/-- A join. -/
def join? (node : Json → Option α) : Record (Join α) := do
  return {
    type := ← field? "join_type" (named? .node)
    table := ← field? "table" node
    condition := ← optional? "on" (inside? "on" node) }

/-- An EXPLAIN. -/
def explain? (node : Json → Option α) : Record (Explain α) := do
  return {
    format := ← optional? "format" (named? .node)
    options := ← optional? "options" node }

/-- A common table expression. -/
def cte? (node : Json → Option α) : Record (Cte α) := do
  return {
    name := ← field? "name" CteName.ofForm?
    materialized := ← optional? "materialized" bool?
    body := ← field? "expression" node }

/-- A WITH clause. -/
def with? (node : Json → Option α) : Record (With α) := do
  return {
    isRecursive := ← field? "recursive" bool?
    ctes := ← field? "expressions" (list? (record? (cte? node))) }

/-- An assignment. -/
def assignment? (node : Json → Option α) : Record (Assignment α) := do
  return {
    column := ← field? "column" Column.ofForm?
    value := ← field? "value" node }

/-- What to do about a conflict. -/
def onConflict? (node : Json → Option α) : Record (OnConflict α) := do
  return {
    columns := ← optional? "columns" (list? Column.ofForm?)
    constraint := ← optional? "constraint" Identifier.ofForm?
    doNothing := ← field? "do_nothing" bool?
    updates := ← optional? "updates" (list? (record? (assignment? node)))
    updateWhere := ← optional? "update_where" (inside? "predicate" node) }

/-- A TOP clause. -/
def top? : Record Top := do
  return {
    count := ← field? "expression" uint64?
    modifier := ← optional? "modifiers" (named? .node) }

/-- An operator in a slot for one. -/
def operator? : Json → Option Operator := inside? "operator" (named? .node)

/-- A list of selections. -/
def selections? (node : Json → Option α) : Json → Option (List α) :=
  list? (inside? "selection" node)

/-- A list of rows. -/
def rows? (node : Json → Option α) : Json → Option (List (List α)) :=
  list? (inside? "values" (list? node))

section Slots

variable (node : Json → Option α)

/-- The slot of a FROM clause. -/
def fromSlot? : Record (Option (List α)) := optional? "from" (inside? "froms" (list? node))

/-- The slot of a list of joins. -/
def joinsSlot? : Record (Option (List (Join α))) :=
  optional? "joins" (list? (record? (join? node)))

/-- The slot of a WHERE clause. -/
def whereSlot? : Record (Option α) := optional? "where_clause" (inside? "predicate" node)

/-- The slot of a RETURNING clause. -/
def returningSlot? : Record (Option (List α)) :=
  optional? "returning" (inside? "selections" (selections? node))

/-- The slot of an OUTPUT clause. -/
def outputSlot? : Record (Option (List α)) :=
  optional? "output" (inside? "selections" (list? node))

/-- The slot of an ORDER BY clause. -/
def orderBySlot? : Record (Option (List (SortItem α))) :=
  optional? "order_by" (inside? "items" (list? (record? (sortItem? node))))

/-- The slot of a LIMIT clause. -/
def limitSlot? : Record (Option α) := optional? "limit" (inside? "limit" node)

/-- The slot of a WITH clause. -/
def withSlot? : Record (Option (With α)) := optional? "with" (record? (with? node))

/-- The slot of an EXPLAIN. -/
def explainSlot? : Record (Option (Explain α)) := optional? "explain" (record? (explain? node))

/-- The slot of a TOP clause. -/
def topSlot? : Record (Option Top) := optional? "top" (record? top?)

/-- The slot of what follows a statement. -/
def endSlot? : Record (Option (List α)) := optional? "end_modifiers" (list? node)

/-- A SELECT. -/
def select? : Record (Select α) := do
  return {
    fromItems := ← fromSlot? node
    selections := ← optional? "selections" (selections? node)
    distinct := ← default? "distinct" false bool?
    joins := ← joinsSlot? node
    whereClause := ← whereSlot? node
    groupBy := ← optional? "group_by" (inside? "items" (list? node))
    having := ← optional? "having" (inside? "predicate" node)
    orderBy := ← orderBySlot? node
    limit := ← limitSlot? node
    offset := ← optional? "offset" (inside? "offset" node)
    withClause := ← withSlot? node
    explain := ← explainSlot? node
    top := ← topSlot?
    endModifiers := ← endSlot? node }

/-- An INSERT. -/
def insert? : Record (Insert α) := do
  return {
    into := ← field? "into" Table.ofForm?
    columns := ← optional? "columns" (list? Column.ofForm?)
    source := ← optional? "values" node
    defaultValues := ← default? "default_values" false bool?
    ignore := ← default? "ignore" false bool?
    onConflict := ← optional? "on_conflict" (record? (onConflict? node))
    returning := ← returningSlot? node
    output := ← outputSlot? node
    withClause := ← withSlot? node
    explain := ← explainSlot? node
    top := ← topSlot?
    endModifiers := ← endSlot? node }

/-- An UPDATE. -/
def update? : Record (Update α) := do
  return {
    table := ← field? "table" node
    assignments := ← optional? "updates" (list? (record? (assignment? node)))
    fromItems := ← fromSlot? node
    joins := ← joinsSlot? node
    whereClause := ← whereSlot? node
    returning := ← returningSlot? node
    output := ← outputSlot? node
    withClause := ← withSlot? node
    orderBy := ← orderBySlot? node
    limit := ← limitSlot? node
    top := ← topSlot?
    explain := ← explainSlot? node
    endModifiers := ← endSlot? node }

/-- A DELETE. -/
def delete? : Record (Delete α) := do
  return {
    fromItems := ← field? "from" (inside? "froms" (list? node))
    usingItems := ← optional? "using" (inside? "tables" (list? node))
    joins := ← joinsSlot? node
    whereClause := ← whereSlot? node
    returning := ← returningSlot? node
    withClause := ← withSlot? node
    orderBy := ← orderBySlot? node
    limit := ← limitSlot? node
    explain := ← explainSlot? node
    endModifiers := ← endSlot? node
    top := ← topSlot?
    output := ← outputSlot? node }

end Slots

/-- The parts of a node of a given kind. -/
def nodeOfKind? (node : Json → Option Node) : Kind → Record Node
  | .identifier => .identifier <$> Identifier.parts?
  | .table => .table <$> Table.parts?
  | .column => .column <$> Column.parts?
  | .reference => do
    return .reference (← optional? "table" Table.ofForm?) (← field? "column" node)
  | .selectAll => return .selectAll
  | .alias => do return .alias (← field? "node" node) (← field? "alias" Identifier.ofForm?)
  | .value => do
    return .value (← field? "value" (Value.ofForm? .node)) (← default? "immediate" false bool?)
  | .valueList => .valueList <$> field? "values" (list? node)
  | .raw => do
    return .raw (← field? "sql_fragments" (list? text?)) (← field? "parameters" (list? node))
  | .operator => .operator <$> field? "operator" (named? .node)
  | .binaryOperation => do
    return .binary (← field? "left" node) (← field? "operator" operator?)
      (← field? "right" node)
  | .unaryOperation => do
    return .unary (← field? "operator" operator?) (← field? "operand" node)
  | .and => do return .and (← field? "left" node) (← field? "right" node)
  | .or => do return .or (← field? "left" node) (← field? "right" node)
  | .parens => .parens <$> field? "node" node
  | .function => do
    return .function (← field? "name" text?) (← field? "arguments" (list? node))
  | .from => .from <$> field? "froms" (list? node)
  | .using => .using <$> field? "tables" (list? node)
  | .join => .join <$> join? node
  | .on => .on <$> field? "on" node
  | .where => .where <$> field? "predicate" node
  | .selection => .selection <$> field? "selection" node
  | .returning => .returning <$> field? "selections" (selections? node)
  | .output => .output <$> field? "selections" (list? node)
  | .orderBy => .orderBy <$> field? "items" (list? (record? (sortItem? node)))
  | .orderByItem => .orderByItem <$> sortItem? node
  | .groupBy => .groupBy <$> field? "items" (list? node)
  | .having => .having <$> field? "predicate" node
  | .limit => .limit <$> field? "limit" node
  | .offset => .offset <$> field? "offset" node
  | .top => .top <$> top?
  | .explain => .explain <$> explain? node
  | .with => .with <$> with? node
  | .commonTableExpression => .cte <$> cte? node
  | .commonTableExpressionName => .cteName <$> CteName.parts?
  | .columnUpdate => .assignment <$> assignment? node
  | .values => .values <$> field? "rows" (rows? node)
  | .onConflict => .onConflict <$> onConflict? node
  | .modifier => .modifier <$> field? "modifier" (named? .node)
  | .selectQuery => .select <$> select? node
  | .insertQuery => .insert <$> insert? node
  | .updateQuery => .update <$> update? node
  | .deleteQuery => .delete <$> delete? node

/-- What tells the kind of a node, and its parts: the field `kind` of an object, or the item before
the parts in an array. -/
def tagged? : Json → Option (Json × Json)
  | .object fs => (Json.lookup? "kind" fs).map (·, .object fs)
  | .array (tag :: parts) => some (tag, .array parts)
  | _ => none

/-- A kind, by its name. A node within a node may also tell its place in the list of all kinds. -/
def kind? : Place → Json → Option Kind
  | _, .text s => Named.ofName? s
  | .node, .int n => if 0 ≤ n then Kind.all[n.toNat]? else none
  | _, _ => none

/-- A node that tells its kind. -/
def node? (p : Place) (node : Json → Option Node) (j : Json) : Option Node := do
  let (tag, parts) ← tagged? j
  record? (nodeOfKind? node (← kind? p tag)) parts

end Form

/-- Reads a node of at most the given number of levels. -/
def Node.ofFormWithin? : Form.Place → Nat → Json → Option Node
  | _, 0, _ => none
  | p, levels + 1, j => Form.node? p (Node.ofFormWithin? .node levels) j

/-- Reads a node from its JSON form. -/
def Node.ofForm? (j : Json) : Option Node := Node.ofFormWithin? .alone j.depth j

end SqlTree
