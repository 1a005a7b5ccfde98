import SqlTree.Node

/-! Passes over trees, from the leaves up. Every node is entered, the pass goes over its children in
a fixed order, the node rebuilt around them is offered for substitution, and the node is left. -/

namespace SqlTree

/-- A step of a pass with state `σ`. A failure keeps the state it was reached in. -/
abbrev Run (σ α : Type) := ExceptT Error (StateM σ) α

/-- What to do at each node. -/
structure Pass (σ : Type) where
  /-- On the way in, before the children of a node. -/
  enter : Node → σ → σ := fun _ s => s
  /-- With the node rebuilt around its children: another node in its place, or none to keep it. -/
  substitute : Node → Run σ (Option Node) := fun _ => return none
  /-- On the way out, with the node as it was entered. -/
  leave : Node → σ → σ := fun _ s => s

namespace Pass

variable {σ : Type}

/-- Visits a node whose rebuilding is given. -/
def visit (p : Pass σ) (entered : Node) (rebuilt : Run σ Node) : Run σ Node := do
  modify (p.enter entered)
  let n ← rebuilt
  let substitute ← p.substitute n
  modify (p.leave entered)
  return substitute.getD n

/-- Visits a node in a slot for one kind; the result must be of that kind. -/
def visitAs {α : Type} (p : Pass σ) (k : KindOf α) (a : α) (rebuilt : Run σ α) : Run σ α := do
  let n ← p.visit (k.make a) (return k.make (← rebuilt))
  n.as k

def visitIdentifier (p : Pass σ) (i : Identifier) : Run σ Identifier :=
  p.visitAs .identifier i (return i)

def rebuildTable (p : Pass σ) (t : Table) : Run σ Table := do
  let schema ← t.schema.mapM p.visitIdentifier
  return ⟨schema, ← p.visitIdentifier t.table⟩

def visitTable (p : Pass σ) (t : Table) : Run σ Table :=
  p.visitAs .table t (p.rebuildTable t)

def rebuildColumn (p : Pass σ) (c : Column) : Run σ Column :=
  return ⟨← p.visitIdentifier c.column⟩

def visitColumn (p : Pass σ) (c : Column) : Run σ Column :=
  p.visitAs .column c (p.rebuildColumn c)

def visitOperator (p : Pass σ) (op : Operator) : Run σ Operator :=
  p.visitAs .operator op (return op)

def visitTop (p : Pass σ) (t : Top) : Run σ Top :=
  p.visitAs .top t (return t)

def rebuildCteName (p : Pass σ) (n : CteName) : Run σ CteName := do
  let table ← p.visitIdentifier n.table
  return ⟨table, ← n.columns.mapM (·.mapM p.visitColumn)⟩

def visitCteName (p : Pass σ) (n : CteName) : Run σ CteName :=
  p.visitAs .cteName n (p.rebuildCteName n)

end Pass

mutual

/-- The tree after a pass over it. -/
def Node.apply {σ : Type} (p : Pass σ) : Node → Run σ Node
  | .identifier i => p.visit (.identifier i) (return .identifier i)
  | .table t => p.visit (.table t) (return .table (← p.rebuildTable t))
  | .column c => p.visit (.column c) (return .column (← p.rebuildColumn c))
  | .reference t n => p.visit (.reference t n) do
    let t ← t.mapM p.visitTable
    return .reference t (← n.apply p)
  | .selectAll => p.visit .selectAll (return .selectAll)
  | .alias n i => p.visit (.alias n i) do
    let n ← n.apply p
    return .alias n (← p.visitIdentifier i)
  | .value v immediate => p.visit (.value v immediate) (return .value v immediate)
  | .valueList ns => p.visit (.valueList ns) (return .valueList (← Node.applyAll p ns))
  | .raw fragments ns => p.visit (.raw fragments ns) (return .raw fragments (← Node.applyAll p ns))
  | .operator op => p.visit (.operator op) (return .operator op)
  | .binary left op right => p.visit (.binary left op right) do
    let left ← left.apply p
    let op ← p.visitOperator op
    return .binary left op (← right.apply p)
  | .unary op n => p.visit (.unary op n) do
    let op ← p.visitOperator op
    return .unary op (← n.apply p)
  | .and left right => p.visit (.and left right) do
    let left ← left.apply p
    return .and left (← right.apply p)
  | .or left right => p.visit (.or left right) do
    let left ← left.apply p
    return .or left (← right.apply p)
  | .parens n => p.visit (.parens n) (return .parens (← n.apply p))
  | .function name ns =>
    p.visit (.function name ns) (return .function name (← Node.applyAll p ns))
  | .from ns => p.visit (.from ns) (return .from (← Node.applyAll p ns))
  | .using ns => p.visit (.using ns) (return .using (← Node.applyAll p ns))
  | .join j => p.visit (.join j) (return .join (← j.apply p))
  | .on n => p.visit (.on n) (return .on (← n.apply p))
  | .where n => p.visit (.where n) (return .where (← n.apply p))
  | .selection n => p.visit (.selection n) (return .selection (← n.apply p))
  | .returning ns => p.visit (.returning ns) (return .returning (← Node.applyEach p .selection ns))
  | .output ns => p.visit (.output ns) (return .output (← Node.applyAll p ns))
  | .orderBy is => p.visit (.orderBy is) (return .orderBy (← SortItem.applyEach p is))
  | .orderByItem i => p.visit (.orderByItem i) (return .orderByItem (← i.apply p))
  | .groupBy ns => p.visit (.groupBy ns) (return .groupBy (← Node.applyAll p ns))
  | .having n => p.visit (.having n) (return .having (← n.apply p))
  | .limit n => p.visit (.limit n) (return .limit (← n.apply p))
  | .offset n => p.visit (.offset n) (return .offset (← n.apply p))
  | .top t => p.visit (.top t) (return .top t)
  | .explain e => p.visit (.explain e) (return .explain (← e.apply p))
  | .with w => p.visit (.with w) (return .with (← w.apply p))
  | .cte c => p.visit (.cte c) (return .cte (← c.apply p))
  | .cteName n => p.visit (.cteName n) (return .cteName (← p.rebuildCteName n))
  | .assignment a => p.visit (.assignment a) (return .assignment (← a.apply p))
  | .values rows => p.visit (.values rows) (return .values (← Node.applyRows p rows))
  | .onConflict c => p.visit (.onConflict c) (return .onConflict (← c.apply p))
  | .modifier m => p.visit (.modifier m) (return .modifier m)
  | .select q => p.visit (.select q) (return .select (← q.apply p))
  | .insert q => p.visit (.insert q) (return .insert (← q.apply p))
  | .update q => p.visit (.update q) (return .update (← q.apply p))
  | .delete q => p.visit (.delete q) (return .delete (← q.apply p))
termination_by structural x => x

def Node.applyAll {σ : Type} (p : Pass σ) : List Node → Run σ (List Node)
  | [] => return []
  | n :: ns => do
    let n ← n.apply p
    return n :: (← Node.applyAll p ns)
termination_by structural x => x

/-- Items in slots for nodes of one kind. -/
def Node.applyEach {σ : Type} (p : Pass σ) (k : KindOf Node) : List Node → Run σ (List Node)
  | [] => return []
  | n :: ns => do
    let n ← p.visitAs k n (n.apply p)
    return n :: (← Node.applyEach p k ns)
termination_by structural x => x

def Node.applyRows {σ : Type} (p : Pass σ) : List (List Node) → Run σ (List (List Node))
  | [] => return []
  | row :: rows => do
    let row ← p.visitAs .valueList row (Node.applyAll p row)
    return row :: (← Node.applyRows p rows)
termination_by structural x => x

def Node.applyOpt {σ : Type} (p : Pass σ) : Option Node → Run σ (Option Node)
  | none => return none
  | some n => return some (← n.apply p)
termination_by structural x => x

/-- An optional slot for nodes of one kind. -/
def Node.applySlot {σ : Type} (p : Pass σ) (k : KindOf Node) : Option Node → Run σ (Option Node)
  | none => return none
  | some n => return some (← p.visitAs k n (n.apply p))
termination_by structural x => x

def Node.applyOptAll {σ : Type} (p : Pass σ) : Option (List Node) → Run σ (Option (List Node))
  | none => return none
  | some ns => return some (← Node.applyAll p ns)
termination_by structural x => x

def Node.applyOptEach {σ : Type} (p : Pass σ) (k : KindOf Node) :
    Option (List Node) → Run σ (Option (List Node))
  | none => return none
  | some ns => return some (← Node.applyEach p k ns)
termination_by structural x => x

/-- An optional slot for a clause of one kind, which is a list of items. -/
def Node.applyItems {σ : Type} (p : Pass σ) (k : KindOf (List Node)) :
    Option (List Node) → Run σ (Option (List Node))
  | none => return none
  | some ns => return some (← p.visitAs k ns (Node.applyAll p ns))
termination_by structural x => x

def Node.applyReturning {σ : Type} (p : Pass σ) : Option (List Node) → Run σ (Option (List Node))
  | none => return none
  | some ns => return some (← p.visitAs .returning ns (Node.applyEach p .selection ns))
termination_by structural x => x

def SortItem.apply {σ : Type} (p : Pass σ) : SortItem Node → Run σ (SortItem Node)
  | ⟨expr, direction⟩ => return ⟨← expr.apply p, direction⟩
termination_by structural x => x

def SortItem.applyEach {σ : Type} (p : Pass σ) :
    List (SortItem Node) → Run σ (List (SortItem Node))
  | [] => return []
  | x :: xs => do
    let x ← p.visitAs .orderByItem x (x.apply p)
    return x :: (← SortItem.applyEach p xs)
termination_by structural x => x

def SortItem.applySlot {σ : Type} (p : Pass σ) :
    Option (List (SortItem Node)) → Run σ (Option (List (SortItem Node)))
  | none => return none
  | some is => return some (← p.visitAs .orderBy is (SortItem.applyEach p is))
termination_by structural x => x

def Join.apply {σ : Type} (p : Pass σ) : Join Node → Run σ (Join Node)
  | ⟨type, table, condition⟩ => do
    let table ← table.apply p
    return ⟨type, table, ← Node.applySlot p .on condition⟩
termination_by structural x => x

def Join.applyEach {σ : Type} (p : Pass σ) :
    List (Join Node) → Run σ (List (Join Node))
  | [] => return []
  | x :: xs => do
    let x ← p.visitAs .join x (x.apply p)
    return x :: (← Join.applyEach p xs)
termination_by structural x => x

def Join.applyOptEach {σ : Type} (p : Pass σ) :
    Option (List (Join Node)) → Run σ (Option (List (Join Node)))
  | none => return none
  | some xs => return some (← Join.applyEach p xs)
termination_by structural x => x

def Explain.apply {σ : Type} (p : Pass σ) : Explain Node → Run σ (Explain Node)
  | ⟨format, options⟩ => return ⟨format, ← Node.applyOpt p options⟩
termination_by structural x => x

def Explain.applySlot {σ : Type} (p : Pass σ) :
    Option (Explain Node) → Run σ (Option (Explain Node))
  | none => return none
  | some x => return some (← p.visitAs .explain x (x.apply p))
termination_by structural x => x

def Cte.apply {σ : Type} (p : Pass σ) : Cte Node → Run σ (Cte Node)
  | ⟨name, materialized, body⟩ => do
    let name ← p.visitCteName name
    return ⟨name, materialized, ← body.apply p⟩
termination_by structural x => x

def Cte.applyEach {σ : Type} (p : Pass σ) :
    List (Cte Node) → Run σ (List (Cte Node))
  | [] => return []
  | x :: xs => do
    let x ← p.visitAs .cte x (x.apply p)
    return x :: (← Cte.applyEach p xs)
termination_by structural x => x

def With.apply {σ : Type} (p : Pass σ) : With Node → Run σ (With Node)
  | ⟨isRecursive, ctes⟩ => return ⟨isRecursive, ← Cte.applyEach p ctes⟩
termination_by structural x => x

def With.applySlot {σ : Type} (p : Pass σ) :
    Option (With Node) → Run σ (Option (With Node))
  | none => return none
  | some x => return some (← p.visitAs .with x (x.apply p))
termination_by structural x => x

def Assignment.apply {σ : Type} (p : Pass σ) : Assignment Node → Run σ (Assignment Node)
  | ⟨column, value⟩ => do
    let column ← p.visitColumn column
    return ⟨column, ← value.apply p⟩
termination_by structural x => x

def Assignment.applyEach {σ : Type} (p : Pass σ) :
    List (Assignment Node) → Run σ (List (Assignment Node))
  | [] => return []
  | x :: xs => do
    let x ← p.visitAs .assignment x (x.apply p)
    return x :: (← Assignment.applyEach p xs)
termination_by structural x => x

def Assignment.applyOptEach {σ : Type} (p : Pass σ) :
    Option (List (Assignment Node)) → Run σ (Option (List (Assignment Node)))
  | none => return none
  | some xs => return some (← Assignment.applyEach p xs)
termination_by structural x => x

def OnConflict.apply {σ : Type} (p : Pass σ) : OnConflict Node → Run σ (OnConflict Node)
  | ⟨columns, constraint, doNothing, updates, updateWhere⟩ => do
    let columns ← columns.mapM (·.mapM p.visitColumn)
    let constraint ← constraint.mapM p.visitIdentifier
    let updates ← Assignment.applyOptEach p updates
    return ⟨columns, constraint, doNothing, updates, ← Node.applySlot p .where updateWhere⟩
termination_by structural x => x

def OnConflict.applySlot {σ : Type} (p : Pass σ) :
    Option (OnConflict Node) → Run σ (Option (OnConflict Node))
  | none => return none
  | some x => return some (← p.visitAs .onConflict x (x.apply p))
termination_by structural x => x

def Select.apply {σ : Type} (p : Pass σ) : Select Node → Run σ (Select Node)
  | ⟨fromItems, selections, distinct, joins, whereClause, groupBy, having, orderBy, limit, offset,
      withClause, explain, top, endModifiers⟩ => do
    let withClause ← With.applySlot p withClause
    let explain ← Explain.applySlot p explain
    let top ← top.mapM p.visitTop
    let selections ← Node.applyOptEach p .selection selections
    let fromItems ← Node.applyItems p .from fromItems
    let joins ← Join.applyOptEach p joins
    let whereClause ← Node.applySlot p .where whereClause
    let groupBy ← Node.applyItems p .groupBy groupBy
    let having ← Node.applySlot p .having having
    let orderBy ← SortItem.applySlot p orderBy
    let limit ← Node.applySlot p .limit limit
    let offset ← Node.applySlot p .offset offset
    let endModifiers ← Node.applyOptAll p endModifiers
    return ⟨fromItems, selections, distinct, joins, whereClause, groupBy, having, orderBy, limit,
      offset, withClause, explain, top, endModifiers⟩
termination_by structural x => x

def Insert.apply {σ : Type} (p : Pass σ) : Insert Node → Run σ (Insert Node)
  | ⟨into, columns, source, defaultValues, ignore, onConflict, returning, output, withClause,
      explain, top, endModifiers⟩ => do
    let withClause ← With.applySlot p withClause
    let explain ← Explain.applySlot p explain
    let top ← top.mapM p.visitTop
    let into ← p.visitTable into
    let columns ← columns.mapM (·.mapM p.visitColumn)
    let source ← Node.applyOpt p source
    let onConflict ← OnConflict.applySlot p onConflict
    let returning ← Node.applyReturning p returning
    let output ← Node.applyItems p .output output
    let endModifiers ← Node.applyOptAll p endModifiers
    return ⟨into, columns, source, defaultValues, ignore, onConflict, returning, output,
      withClause, explain, top, endModifiers⟩
termination_by structural x => x

def Update.apply {σ : Type} (p : Pass σ) : Update Node → Run σ (Update Node)
  | ⟨table, assignments, fromItems, joins, whereClause, returning, output, withClause, orderBy,
      limit, top, explain, endModifiers⟩ => do
    let withClause ← With.applySlot p withClause
    let explain ← Explain.applySlot p explain
    let top ← top.mapM p.visitTop
    let table ← table.apply p
    let assignments ← Assignment.applyOptEach p assignments
    let fromItems ← Node.applyItems p .from fromItems
    let joins ← Join.applyOptEach p joins
    let whereClause ← Node.applySlot p .where whereClause
    let returning ← Node.applyReturning p returning
    let output ← Node.applyItems p .output output
    let orderBy ← SortItem.applySlot p orderBy
    let limit ← Node.applySlot p .limit limit
    let endModifiers ← Node.applyOptAll p endModifiers
    return ⟨table, assignments, fromItems, joins, whereClause, returning, output, withClause,
      orderBy, limit, top, explain, endModifiers⟩
termination_by structural x => x

def Delete.apply {σ : Type} (p : Pass σ) : Delete Node → Run σ (Delete Node)
  | ⟨fromItems, usingItems, joins, whereClause, returning, withClause, orderBy, limit, explain,
      endModifiers, top, output⟩ => do
    let withClause ← With.applySlot p withClause
    let explain ← Explain.applySlot p explain
    let top ← top.mapM p.visitTop
    let fromItems ← p.visitAs .from fromItems (Node.applyAll p fromItems)
    let usingItems ← Node.applyItems p .using usingItems
    let joins ← Join.applyOptEach p joins
    let whereClause ← Node.applySlot p .where whereClause
    let returning ← Node.applyReturning p returning
    let output ← Node.applyItems p .output output
    let orderBy ← SortItem.applySlot p orderBy
    let limit ← Node.applySlot p .limit limit
    let endModifiers ← Node.applyOptAll p endModifiers
    return ⟨fromItems, usingItems, joins, whereClause, returning, withClause, orderBy, limit,
      explain, endModifiers, top, output⟩
termination_by structural x => x

end

end SqlTree
