import SqlTree.Node.Build

/-! # Editing the leaves of a tree

The leaves of a tree are its tables, names, verbatim texts and values. An edit changes them one by
one and keeps everything else. A table is changed knowing the names that the WITH clauses of the
statements around it bind; a clause binds its names in the whole of its statement. -/

namespace SqlTree

/-- What happens to each leaf of a tree. -/
structure Edit where
  /-- A table, given the names bound around it. -/
  table : List String → Table → Table := fun _ t => t
  /-- An identifier that is no part of a table. -/
  identifier : Identifier → Identifier := id
  /-- The name of a function. -/
  function : String → String := id
  /-- The fragments of a raw text, given the number of its parameters. -/
  fragments : List String → Nat → List String := fun fs _ => fs
  /-- A value, and whether it is immediate. -/
  value : Value → Bool → Value × Bool := fun v immediate => (v, immediate)

/-- An edit of tables and values only. -/
structure Edit.KeepsNames (e : Edit) : Prop where
  identifier : e.identifier = id
  function : e.function = id
  fragments : e.fragments = fun fs _ => fs

/-- The names that a WITH clause binds, if there is one. -/
def With.bindings {α : Type} (w : Option (With α)) : List String := (w.map With.names).getD []

/-- The names that a node binds below it: those of its WITH clause if it is a statement. -/
def Node.bindings : Node → List String
  | .select q => With.bindings q.withClause
  | .insert q => With.bindings q.withClause
  | .update q => With.bindings q.withClause
  | .delete q => With.bindings q.withClause
  | _ => []

section Edit

variable (e : Edit)

def Column.edit (c : Column) : Column := ⟨e.identifier c.column⟩

def CteName.edit (n : CteName) : CteName :=
  ⟨e.identifier n.table, n.columns.map (·.map (Column.edit e))⟩

mutual

/-- The tree with its leaves changed, in a place where some names are bound. -/
def Node.edit (bound : List String) : Node → Node
  | .identifier i => .identifier (e.identifier i)
  | .table t => .table (e.table bound t)
  | .column c => .column (c.edit e)
  | .reference t n => .reference (t.map (e.table bound)) (n.edit bound)
  | .selectAll => .selectAll
  | .alias n i => .alias (n.edit bound) (e.identifier i)
  | .value v immediate => .value (e.value v immediate).1 (e.value v immediate).2
  | .valueList ns => .valueList (Node.editAll bound ns)
  | .raw fragments ns => .raw (e.fragments fragments ns.length) (Node.editAll bound ns)
  | .operator op => .operator op
  | .binary l op r => .binary (l.edit bound) op (r.edit bound)
  | .unary op n => .unary op (n.edit bound)
  | .and l r => .and (l.edit bound) (r.edit bound)
  | .or l r => .or (l.edit bound) (r.edit bound)
  | .parens n => .parens (n.edit bound)
  | .function name ns => .function (e.function name) (Node.editAll bound ns)
  | .from ns => .from (Node.editAll bound ns)
  | .using ns => .using (Node.editAll bound ns)
  | .join j => .join (j.edit bound)
  | .on n => .on (n.edit bound)
  | .where n => .where (n.edit bound)
  | .selection n => .selection (n.edit bound)
  | .returning ns => .returning (Node.editAll bound ns)
  | .output ns => .output (Node.editAll bound ns)
  | .orderBy is => .orderBy (SortItem.editAll bound is)
  | .orderByItem i => .orderByItem (i.edit bound)
  | .groupBy ns => .groupBy (Node.editAll bound ns)
  | .having n => .having (n.edit bound)
  | .limit n => .limit (n.edit bound)
  | .offset n => .offset (n.edit bound)
  | .top t => .top t
  | .explain x => .explain (x.edit bound)
  | .with w => .with (w.edit bound)
  | .cte c => .cte (c.edit bound)
  | .cteName n => .cteName (n.edit e)
  | .assignment a => .assignment (a.edit bound)
  | .values rows => .values (Node.editRows bound rows)
  | .onConflict c => .onConflict (c.edit bound)
  | .modifier m => .modifier m
  | .select q => .select (q.edit (With.bindings q.withClause ++ bound))
  | .insert q => .insert (q.edit (With.bindings q.withClause ++ bound))
  | .update q => .update (q.edit (With.bindings q.withClause ++ bound))
  | .delete q => .delete (q.edit (With.bindings q.withClause ++ bound))
termination_by structural x => x

def Node.editAll (bound : List String) : List Node → List Node
  | [] => []
  | n :: ns => n.edit bound :: Node.editAll bound ns
termination_by structural x => x

def Node.editOpt (bound : List String) : Option Node → Option Node
  | none => none
  | some n => some (n.edit bound)
termination_by structural x => x

def Node.editOptAll (bound : List String) : Option (List Node) → Option (List Node)
  | none => none
  | some ns => some (Node.editAll bound ns)
termination_by structural x => x

def Node.editRows (bound : List String) : List (List Node) → List (List Node)
  | [] => []
  | row :: rows => Node.editAll bound row :: Node.editRows bound rows
termination_by structural x => x

def SortItem.edit (bound : List String) : SortItem Node → SortItem Node
  | ⟨expr, direction⟩ => ⟨expr.edit bound, direction⟩
termination_by structural x => x

def SortItem.editAll (bound : List String) : List (SortItem Node) → List (SortItem Node)
  | [] => []
  | x :: xs => x.edit bound :: SortItem.editAll bound xs
termination_by structural x => x

def SortItem.editOptAll (bound : List String) :
    Option (List (SortItem Node)) → Option (List (SortItem Node))
  | none => none
  | some xs => some (SortItem.editAll bound xs)
termination_by structural x => x

def Join.edit (bound : List String) : Join Node → Join Node
  | ⟨type, table, condition⟩ => ⟨type, table.edit bound, Node.editOpt bound condition⟩
termination_by structural x => x

def Join.editAll (bound : List String) : List (Join Node) → List (Join Node)
  | [] => []
  | x :: xs => x.edit bound :: Join.editAll bound xs
termination_by structural x => x

def Join.editOptAll (bound : List String) : Option (List (Join Node)) → Option (List (Join Node))
  | none => none
  | some xs => some (Join.editAll bound xs)
termination_by structural x => x

def Explain.edit (bound : List String) : Explain Node → Explain Node
  | ⟨format, options⟩ => ⟨format, Node.editOpt bound options⟩
termination_by structural x => x

def Explain.editOpt (bound : List String) : Option (Explain Node) → Option (Explain Node)
  | none => none
  | some x => some (x.edit bound)
termination_by structural x => x

def Cte.edit (bound : List String) : Cte Node → Cte Node
  | ⟨name, materialized, body⟩ => ⟨name.edit e, materialized, body.edit bound⟩
termination_by structural x => x

def Cte.editAll (bound : List String) : List (Cte Node) → List (Cte Node)
  | [] => []
  | x :: xs => x.edit bound :: Cte.editAll bound xs
termination_by structural x => x

def With.edit (bound : List String) : With Node → With Node
  | ⟨isRecursive, ctes⟩ => ⟨isRecursive, Cte.editAll bound ctes⟩
termination_by structural x => x

def With.editOpt (bound : List String) : Option (With Node) → Option (With Node)
  | none => none
  | some x => some (x.edit bound)
termination_by structural x => x

def Assignment.edit (bound : List String) : Assignment Node → Assignment Node
  | ⟨column, value⟩ => ⟨column.edit e, value.edit bound⟩
termination_by structural x => x

def Assignment.editAll (bound : List String) : List (Assignment Node) → List (Assignment Node)
  | [] => []
  | x :: xs => x.edit bound :: Assignment.editAll bound xs
termination_by structural x => x

def Assignment.editOptAll (bound : List String) :
    Option (List (Assignment Node)) → Option (List (Assignment Node))
  | none => none
  | some xs => some (Assignment.editAll bound xs)
termination_by structural x => x

def OnConflict.edit (bound : List String) : OnConflict Node → OnConflict Node
  | ⟨columns, constraint, doNothing, updates, updateWhere⟩ =>
    ⟨columns.map (·.map (Column.edit e)), constraint.map e.identifier, doNothing,
      Assignment.editOptAll bound updates, Node.editOpt bound updateWhere⟩
termination_by structural x => x

def OnConflict.editOpt (bound : List String) : Option (OnConflict Node) → Option (OnConflict Node)
  | none => none
  | some x => some (x.edit bound)
termination_by structural x => x

def Select.edit (bound : List String) : Select Node → Select Node
  | ⟨fromItems, selections, distinct, joins, whereClause, groupBy, having, orderBy, limit, offset,
      withClause, explain, top, endModifiers⟩ =>
    ⟨Node.editOptAll bound fromItems, Node.editOptAll bound selections, distinct,
      Join.editOptAll bound joins, Node.editOpt bound whereClause, Node.editOptAll bound groupBy,
      Node.editOpt bound having, SortItem.editOptAll bound orderBy, Node.editOpt bound limit,
      Node.editOpt bound offset, With.editOpt bound withClause, Explain.editOpt bound explain, top,
      Node.editOptAll bound endModifiers⟩
termination_by structural x => x

def Insert.edit (bound : List String) : Insert Node → Insert Node
  | ⟨into, columns, source, defaultValues, ignore, onConflict, returning, output, withClause,
      explain, top, endModifiers⟩ =>
    ⟨e.table bound into, columns.map (·.map (Column.edit e)), Node.editOpt bound source,
      defaultValues, ignore, OnConflict.editOpt bound onConflict, Node.editOptAll bound returning,
      Node.editOptAll bound output, With.editOpt bound withClause, Explain.editOpt bound explain,
      top, Node.editOptAll bound endModifiers⟩
termination_by structural x => x

def Update.edit (bound : List String) : Update Node → Update Node
  | ⟨table, assignments, fromItems, joins, whereClause, returning, output, withClause, orderBy,
      limit, top, explain, endModifiers⟩ =>
    ⟨table.edit bound, Assignment.editOptAll bound assignments, Node.editOptAll bound fromItems,
      Join.editOptAll bound joins, Node.editOpt bound whereClause,
      Node.editOptAll bound returning, Node.editOptAll bound output,
      With.editOpt bound withClause, SortItem.editOptAll bound orderBy, Node.editOpt bound limit,
      top, Explain.editOpt bound explain, Node.editOptAll bound endModifiers⟩
termination_by structural x => x

def Delete.edit (bound : List String) : Delete Node → Delete Node
  | ⟨fromItems, usingItems, joins, whereClause, returning, withClause, orderBy, limit, explain,
      endModifiers, top, output⟩ =>
    ⟨Node.editAll bound fromItems, Node.editOptAll bound usingItems, Join.editOptAll bound joins,
      Node.editOpt bound whereClause, Node.editOptAll bound returning,
      With.editOpt bound withClause, SortItem.editOptAll bound orderBy, Node.editOpt bound limit,
      Explain.editOpt bound explain, Node.editOptAll bound endModifiers, top,
      Node.editOptAll bound output⟩
termination_by structural x => x

end

attribute [simp] Node.edit

/-! ## The loops of an edit -/

section Loops

variable (bound : List String)

@[simp] theorem Node.editAll_eq (ns : List Node) :
    Node.editAll e bound ns = ns.map (Node.edit e bound) := by
  induction ns with
  | nil => rfl
  | cons n ns ih => rw [editAll, ih, List.map_cons]

@[simp] theorem Node.editOpt_eq (n : Option Node) :
    Node.editOpt e bound n = n.map (Node.edit e bound) := by
  cases n <;> rfl

@[simp] theorem Node.editOptAll_eq (ns : Option (List Node)) :
    Node.editOptAll e bound ns = ns.map (·.map (Node.edit e bound)) := by
  cases ns with
  | none => rfl
  | some ns => rw [editOptAll, editAll_eq, Option.map_some]

@[simp] theorem Node.editRows_eq (rows : List (List Node)) :
    Node.editRows e bound rows = rows.map (·.map (Node.edit e bound)) := by
  induction rows with
  | nil => rfl
  | cons row rows ih => rw [editRows, ih, editAll_eq, List.map_cons]

@[simp] theorem SortItem.editAll_eq (xs : List (SortItem Node)) :
    SortItem.editAll e bound xs = xs.map (SortItem.edit e bound) := by
  induction xs with
  | nil => rfl
  | cons x xs ih => rw [editAll, ih, List.map_cons]

@[simp] theorem SortItem.editOptAll_eq (xs : Option (List (SortItem Node))) :
    SortItem.editOptAll e bound xs = xs.map (·.map (SortItem.edit e bound)) := by
  cases xs with
  | none => rfl
  | some xs => rw [editOptAll, editAll_eq, Option.map_some]

@[simp] theorem Join.editAll_eq (xs : List (Join Node)) :
    Join.editAll e bound xs = xs.map (Join.edit e bound) := by
  induction xs with
  | nil => rfl
  | cons x xs ih => rw [editAll, ih, List.map_cons]

@[simp] theorem Join.editOptAll_eq (xs : Option (List (Join Node))) :
    Join.editOptAll e bound xs = xs.map (·.map (Join.edit e bound)) := by
  cases xs with
  | none => rfl
  | some xs => rw [editOptAll, editAll_eq, Option.map_some]

@[simp] theorem Cte.editAll_eq (xs : List (Cte Node)) :
    Cte.editAll e bound xs = xs.map (Cte.edit e bound) := by
  induction xs with
  | nil => rfl
  | cons x xs ih => rw [editAll, ih, List.map_cons]

@[simp] theorem Assignment.editAll_eq (xs : List (Assignment Node)) :
    Assignment.editAll e bound xs = xs.map (Assignment.edit e bound) := by
  induction xs with
  | nil => rfl
  | cons x xs ih => rw [editAll, ih, List.map_cons]

@[simp] theorem Assignment.editOptAll_eq (xs : Option (List (Assignment Node))) :
    Assignment.editOptAll e bound xs = xs.map (·.map (Assignment.edit e bound)) := by
  cases xs with
  | none => rfl
  | some xs => rw [editOptAll, editAll_eq, Option.map_some]

@[simp] theorem Explain.editOpt_eq (x : Option (Explain Node)) :
    Explain.editOpt e bound x = x.map (Explain.edit e bound) := by
  cases x <;> rfl

@[simp] theorem With.editOpt_eq (x : Option (With Node)) :
    With.editOpt e bound x = x.map (With.edit e bound) := by
  cases x <;> rfl

@[simp] theorem OnConflict.editOpt_eq (x : Option (OnConflict Node)) :
    OnConflict.editOpt e bound x = x.map (OnConflict.edit e bound) := by
  cases x <;> rfl

theorem SortItem.edit_eq (x : SortItem Node) :
    x.edit e bound = ⟨x.expr.edit e bound, x.direction⟩ := by
  cases x
  rfl

theorem Join.edit_eq (j : Join Node) :
    j.edit e bound = ⟨j.type, j.table.edit e bound, j.condition.map (Node.edit e bound)⟩ := by
  cases j
  simp [edit]

theorem Explain.edit_eq (x : Explain Node) :
    x.edit e bound = ⟨x.format, x.options.map (Node.edit e bound)⟩ := by
  cases x
  simp [edit]

theorem Cte.edit_eq (c : Cte Node) :
    c.edit e bound = ⟨c.name.edit e, c.materialized, c.body.edit e bound⟩ := by
  cases c
  rfl

theorem With.edit_eq (w : With Node) :
    w.edit e bound = ⟨w.isRecursive, w.ctes.map (Cte.edit e bound)⟩ := by
  cases w
  simp [edit]

theorem Assignment.edit_eq (a : Assignment Node) :
    a.edit e bound = ⟨a.column.edit e, a.value.edit e bound⟩ := by
  cases a
  rfl

theorem OnConflict.edit_eq (c : OnConflict Node) :
    c.edit e bound = ⟨c.columns.map (·.map (Column.edit e)), c.constraint.map e.identifier,
      c.doNothing, c.updates.map (·.map (Assignment.edit e bound)),
      c.updateWhere.map (Node.edit e bound)⟩ := by
  cases c
  simp [edit]

theorem Node.kind_edit (n : Node) : (n.edit e bound).kind = n.kind := by
  cases n <;> rfl

end Loops

end Edit

end SqlTree
