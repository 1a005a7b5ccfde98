import SqlTree.Proofs.Editing.Layouts
import SqlTree.Proofs.Editing.Parts
import SqlTree.Proofs.Emission.Parts

/-! # Changing the values of a tree

The renderer does not look into values. The pieces of a tree whose values are changed are the
changed pieces of the tree, as long as the change moves no parentheses: after a unary minus a
literal stands in parentheses and a bound value does not. A change of values is an edit, so it
shares the parts and the layouts of edited nodes. -/

namespace SqlTree

/-! ## Changing the values of a tree -/

section MapValues

variable (f : Value → Bool → Value × Bool)

mutual

/-- The tree with each value, and whether it is immediate, changed. -/
def Node.mapValues : Node → Node
  | .value v immediate => .value (f v immediate).1 (f v immediate).2
  | .reference t n => .reference t n.mapValues
  | .alias n i => .alias n.mapValues i
  | .valueList ns => .valueList (Node.mapValuesAll ns)
  | .raw fragments ns => .raw fragments (Node.mapValuesAll ns)
  | .binary l op r => .binary l.mapValues op r.mapValues
  | .unary op n => .unary op n.mapValues
  | .and l r => .and l.mapValues r.mapValues
  | .or l r => .or l.mapValues r.mapValues
  | .parens n => .parens n.mapValues
  | .function name ns => .function name (Node.mapValuesAll ns)
  | .from ns => .from (Node.mapValuesAll ns)
  | .using ns => .using (Node.mapValuesAll ns)
  | .join j => .join j.mapValues
  | .on n => .on n.mapValues
  | .where n => .where n.mapValues
  | .selection n => .selection n.mapValues
  | .returning ns => .returning (Node.mapValuesAll ns)
  | .output ns => .output (Node.mapValuesAll ns)
  | .orderBy is => .orderBy (SortItem.mapValuesAll is)
  | .orderByItem i => .orderByItem i.mapValues
  | .groupBy ns => .groupBy (Node.mapValuesAll ns)
  | .having n => .having n.mapValues
  | .limit n => .limit n.mapValues
  | .offset n => .offset n.mapValues
  | .explain e => .explain e.mapValues
  | .with w => .with w.mapValues
  | .cte c => .cte c.mapValues
  | .assignment a => .assignment a.mapValues
  | .values rows => .values (Node.mapValuesRows rows)
  | .onConflict c => .onConflict c.mapValues
  | .select q => .select q.mapValues
  | .insert q => .insert q.mapValues
  | .update q => .update q.mapValues
  | .delete q => .delete q.mapValues
  | n => n
termination_by structural x => x

def Node.mapValuesAll : List Node → List Node
  | [] => []
  | n :: ns => n.mapValues :: Node.mapValuesAll ns
termination_by structural x => x

def Node.mapValuesOpt : Option Node → Option Node
  | none => none
  | some n => some n.mapValues
termination_by structural x => x

def Node.mapValuesOptAll : Option (List Node) → Option (List Node)
  | none => none
  | some ns => some (Node.mapValuesAll ns)
termination_by structural x => x

def Node.mapValuesRows : List (List Node) → List (List Node)
  | [] => []
  | row :: rows => Node.mapValuesAll row :: Node.mapValuesRows rows
termination_by structural x => x

def SortItem.mapValues : SortItem Node → SortItem Node
  | ⟨expr, direction⟩ => ⟨expr.mapValues, direction⟩
termination_by structural x => x

def SortItem.mapValuesAll : List (SortItem Node) → List (SortItem Node)
  | [] => []
  | x :: xs => x.mapValues :: SortItem.mapValuesAll xs
termination_by structural x => x

def SortItem.mapValuesOptAll : Option (List (SortItem Node)) → Option (List (SortItem Node))
  | none => none
  | some xs => some (SortItem.mapValuesAll xs)
termination_by structural x => x

def Join.mapValues : Join Node → Join Node
  | ⟨type, table, condition⟩ => ⟨type, table.mapValues, Node.mapValuesOpt condition⟩
termination_by structural x => x

def Join.mapValuesAll : List (Join Node) → List (Join Node)
  | [] => []
  | x :: xs => x.mapValues :: Join.mapValuesAll xs
termination_by structural x => x

def Join.mapValuesOptAll : Option (List (Join Node)) → Option (List (Join Node))
  | none => none
  | some xs => some (Join.mapValuesAll xs)
termination_by structural x => x

def Explain.mapValues : Explain Node → Explain Node
  | ⟨format, options⟩ => ⟨format, Node.mapValuesOpt options⟩
termination_by structural x => x

def Explain.mapValuesOpt : Option (Explain Node) → Option (Explain Node)
  | none => none
  | some x => some x.mapValues
termination_by structural x => x

def Cte.mapValues : Cte Node → Cte Node
  | ⟨name, materialized, body⟩ => ⟨name, materialized, body.mapValues⟩
termination_by structural x => x

def Cte.mapValuesAll : List (Cte Node) → List (Cte Node)
  | [] => []
  | x :: xs => x.mapValues :: Cte.mapValuesAll xs
termination_by structural x => x

def With.mapValues : With Node → With Node
  | ⟨isRecursive, ctes⟩ => ⟨isRecursive, Cte.mapValuesAll ctes⟩
termination_by structural x => x

def With.mapValuesOpt : Option (With Node) → Option (With Node)
  | none => none
  | some x => some x.mapValues
termination_by structural x => x

def Assignment.mapValues : Assignment Node → Assignment Node
  | ⟨column, value⟩ => ⟨column, value.mapValues⟩
termination_by structural x => x

def Assignment.mapValuesAll : List (Assignment Node) → List (Assignment Node)
  | [] => []
  | x :: xs => x.mapValues :: Assignment.mapValuesAll xs
termination_by structural x => x

def Assignment.mapValuesOptAll :
    Option (List (Assignment Node)) → Option (List (Assignment Node))
  | none => none
  | some xs => some (Assignment.mapValuesAll xs)
termination_by structural x => x

def OnConflict.mapValues : OnConflict Node → OnConflict Node
  | ⟨columns, constraint, doNothing, updates, updateWhere⟩ =>
    ⟨columns, constraint, doNothing, Assignment.mapValuesOptAll updates,
      Node.mapValuesOpt updateWhere⟩
termination_by structural x => x

def OnConflict.mapValuesOpt : Option (OnConflict Node) → Option (OnConflict Node)
  | none => none
  | some x => some x.mapValues
termination_by structural x => x

def Select.mapValues : Select Node → Select Node
  | ⟨fromItems, selections, distinct, joins, whereClause, groupBy, having, orderBy, limit, offset,
      withClause, explain, top, endModifiers⟩ =>
    ⟨Node.mapValuesOptAll fromItems, Node.mapValuesOptAll selections, distinct,
      Join.mapValuesOptAll joins, Node.mapValuesOpt whereClause, Node.mapValuesOptAll groupBy,
      Node.mapValuesOpt having, SortItem.mapValuesOptAll orderBy, Node.mapValuesOpt limit,
      Node.mapValuesOpt offset, With.mapValuesOpt withClause, Explain.mapValuesOpt explain, top,
      Node.mapValuesOptAll endModifiers⟩
termination_by structural x => x

def Insert.mapValues : Insert Node → Insert Node
  | ⟨into, columns, source, defaultValues, ignore, onConflict, returning, output, withClause,
      explain, top, endModifiers⟩ =>
    ⟨into, columns, Node.mapValuesOpt source, defaultValues, ignore,
      OnConflict.mapValuesOpt onConflict, Node.mapValuesOptAll returning,
      Node.mapValuesOptAll output, With.mapValuesOpt withClause, Explain.mapValuesOpt explain, top,
      Node.mapValuesOptAll endModifiers⟩
termination_by structural x => x

def Update.mapValues : Update Node → Update Node
  | ⟨table, assignments, fromItems, joins, whereClause, returning, output, withClause, orderBy,
      limit, top, explain, endModifiers⟩ =>
    ⟨table.mapValues, Assignment.mapValuesOptAll assignments, Node.mapValuesOptAll fromItems,
      Join.mapValuesOptAll joins, Node.mapValuesOpt whereClause, Node.mapValuesOptAll returning,
      Node.mapValuesOptAll output, With.mapValuesOpt withClause, SortItem.mapValuesOptAll orderBy,
      Node.mapValuesOpt limit, top, Explain.mapValuesOpt explain,
      Node.mapValuesOptAll endModifiers⟩
termination_by structural x => x

def Delete.mapValues : Delete Node → Delete Node
  | ⟨fromItems, usingItems, joins, whereClause, returning, withClause, orderBy, limit, explain,
      endModifiers, top, output⟩ =>
    ⟨Node.mapValuesAll fromItems, Node.mapValuesOptAll usingItems, Join.mapValuesOptAll joins,
      Node.mapValuesOpt whereClause, Node.mapValuesOptAll returning,
      With.mapValuesOpt withClause, SortItem.mapValuesOptAll orderBy, Node.mapValuesOpt limit,
      Explain.mapValuesOpt explain, Node.mapValuesOptAll endModifiers, top,
      Node.mapValuesOptAll output⟩
termination_by structural x => x

end

attribute [simp] Node.mapValues

/-! ## The loops of the change -/

theorem Node.mapValuesAll_eq (ns : List Node) :
    Node.mapValuesAll f ns = ns.map (Node.mapValues f) := by
  induction ns with
  | nil => rfl
  | cons n ns ih => rw [mapValuesAll, ih, List.map_cons]

theorem Node.mapValuesOpt_eq (n : Option Node) :
    Node.mapValuesOpt f n = n.map (Node.mapValues f) := by
  cases n <;> rfl

theorem Node.mapValuesOptAll_eq (ns : Option (List Node)) :
    Node.mapValuesOptAll f ns = ns.map (·.map (Node.mapValues f)) := by
  cases ns with
  | none => rfl
  | some ns => rw [mapValuesOptAll, mapValuesAll_eq, Option.map_some]

theorem Node.mapValuesRows_eq (rows : List (List Node)) :
    Node.mapValuesRows f rows = rows.map (·.map (Node.mapValues f)) := by
  induction rows with
  | nil => rfl
  | cons row rows ih => rw [mapValuesRows, ih, mapValuesAll_eq, List.map_cons]

theorem SortItem.mapValuesAll_eq (xs : List (SortItem Node)) :
    SortItem.mapValuesAll f xs = xs.map (SortItem.mapValues f) := by
  induction xs with
  | nil => rfl
  | cons x xs ih => rw [mapValuesAll, ih, List.map_cons]

theorem SortItem.mapValuesOptAll_eq (xs : Option (List (SortItem Node))) :
    SortItem.mapValuesOptAll f xs = xs.map (·.map (SortItem.mapValues f)) := by
  cases xs with
  | none => rfl
  | some xs => rw [mapValuesOptAll, mapValuesAll_eq, Option.map_some]

theorem Join.mapValuesAll_eq (xs : List (Join Node)) :
    Join.mapValuesAll f xs = xs.map (Join.mapValues f) := by
  induction xs with
  | nil => rfl
  | cons x xs ih => rw [mapValuesAll, ih, List.map_cons]

theorem Join.mapValuesOptAll_eq (xs : Option (List (Join Node))) :
    Join.mapValuesOptAll f xs = xs.map (·.map (Join.mapValues f)) := by
  cases xs with
  | none => rfl
  | some xs => rw [mapValuesOptAll, mapValuesAll_eq, Option.map_some]

theorem Cte.mapValuesAll_eq (xs : List (Cte Node)) :
    Cte.mapValuesAll f xs = xs.map (Cte.mapValues f) := by
  induction xs with
  | nil => rfl
  | cons x xs ih => rw [mapValuesAll, ih, List.map_cons]

theorem Assignment.mapValuesAll_eq (xs : List (Assignment Node)) :
    Assignment.mapValuesAll f xs = xs.map (Assignment.mapValues f) := by
  induction xs with
  | nil => rfl
  | cons x xs ih => rw [mapValuesAll, ih, List.map_cons]

theorem Assignment.mapValuesOptAll_eq (xs : Option (List (Assignment Node))) :
    Assignment.mapValuesOptAll f xs = xs.map (·.map (Assignment.mapValues f)) := by
  cases xs with
  | none => rfl
  | some xs => rw [mapValuesOptAll, mapValuesAll_eq, Option.map_some]

theorem Explain.mapValuesOpt_eq (x : Option (Explain Node)) :
    Explain.mapValuesOpt f x = x.map (Explain.mapValues f) := by
  cases x <;> rfl

theorem With.mapValuesOpt_eq (x : Option (With Node)) :
    With.mapValuesOpt f x = x.map (With.mapValues f) := by
  cases x <;> rfl

theorem OnConflict.mapValuesOpt_eq (x : Option (OnConflict Node)) :
    OnConflict.mapValuesOpt f x = x.map (OnConflict.mapValues f) := by
  cases x <;> rfl

theorem SortItem.mapValues_eq (x : SortItem Node) :
    x.mapValues f = ⟨x.expr.mapValues f, x.direction⟩ := by
  cases x
  rfl

theorem Join.mapValues_eq (j : Join Node) :
    j.mapValues f = ⟨j.type, j.table.mapValues f, j.condition.map (Node.mapValues f)⟩ := by
  rw [← Node.mapValuesOpt_eq]
  cases j
  rfl

theorem Explain.mapValues_eq (e : Explain Node) :
    e.mapValues f = ⟨e.format, e.options.map (Node.mapValues f)⟩ := by
  rw [← Node.mapValuesOpt_eq]
  cases e
  rfl

theorem Cte.mapValues_eq (c : Cte Node) :
    c.mapValues f = ⟨c.name, c.materialized, c.body.mapValues f⟩ := by
  cases c
  rfl

theorem With.mapValues_eq (w : With Node) :
    w.mapValues f = ⟨w.isRecursive, w.ctes.map (Cte.mapValues f)⟩ := by
  rw [← Cte.mapValuesAll_eq]
  cases w
  rfl

theorem Assignment.mapValues_eq (a : Assignment Node) :
    a.mapValues f = ⟨a.column, a.value.mapValues f⟩ := by
  cases a
  rfl

theorem OnConflict.mapValues_eq (c : OnConflict Node) :
    c.mapValues f = ⟨c.columns, c.constraint, c.doNothing,
      c.updates.map (·.map (Assignment.mapValues f)), c.updateWhere.map (Node.mapValues f)⟩ := by
  rw [← Assignment.mapValuesOptAll_eq, ← Node.mapValuesOpt_eq]
  cases c
  rfl

/-! ## The change as an edit -/

/-- Changes values only. -/
def Edit.onValues : Edit where
  value := f

theorem Edit.keepsNames_onValues : (onValues f).KeepsNames := ⟨rfl, rfl, rfl⟩

open Port

theorem Node.groups_mapValues (n : Node) :
    (n.mapValues f).groups = n.groups.map (·.map (Node.mapValues f)) := by
  cases n
  case' select q | insert q | update q | delete q => cases q
  all_goals
    simp [groups, fields, only, Port.any, KindOf.identifier, KindOf.table, KindOf.column,
      KindOf.operator, KindOf.valueList, KindOf.on, KindOf.selection, KindOf.orderByItem,
      KindOf.cte, KindOf.cteName, KindOf.assignment, KindOf.where, KindOf.with, KindOf.explain,
      KindOf.top, KindOf.from, KindOf.join, KindOf.using, KindOf.onConflict, KindOf.returning,
      KindOf.output, KindOf.groupBy, KindOf.having, KindOf.orderBy, KindOf.limit, KindOf.offset,
      mapValuesAll_eq, mapValuesOpt_eq, mapValuesOptAll_eq, mapValuesRows_eq,
      SortItem.mapValuesAll_eq, SortItem.mapValuesOptAll_eq, Join.mapValuesOptAll_eq,
      Assignment.mapValuesOptAll_eq, Explain.mapValuesOpt_eq, With.mapValuesOpt_eq,
      OnConflict.mapValuesOpt_eq, SortItem.mapValues_eq, Join.mapValues_eq, Explain.mapValues_eq,
      Cte.mapValues_eq, With.mapValues_eq, Assignment.mapValues_eq, OnConflict.mapValues_eq,
      Select.mapValues, Insert.mapValues, Update.mapValues, Delete.mapValues, Option.toList_map,
      getD_map, Function.comp_def]

theorem Node.scalars_mapValues {n : Node} (h : n.kind ≠ .value) :
    (n.mapValues f).scalars = n.scalars := by
  cases n
  case value => exact absurd rfl h
  case' select q | insert q | update q | delete q => cases q
  all_goals simp [scalars, mapValuesOptAll_eq, Join.mapValuesOptAll_eq,
    Assignment.mapValuesOptAll_eq, SortItem.mapValues_eq, Join.mapValues_eq, Explain.mapValues_eq,
    Cte.mapValues_eq, With.mapValues_eq, OnConflict.mapValues_eq, Select.mapValues,
    Insert.mapValues, Update.mapValues, Delete.mapValues]

theorem Node.kind_mapValues (n : Node) : (n.mapValues f).kind = n.kind := by
  cases n <;> rfl

theorem Node.rebuilt_mapValues {n : Node} (h : n.kind ≠ .value) :
    n.Rebuilt (n.contents.map (mapValues f)) (n.mapValues f) :=
  .of_groups (n.kind_mapValues f) (scalars_mapValues f h) (n.groups_mapValues f)

/-- A change of values is an edit, whatever names are bound. -/
theorem Node.mapValues_eq_edit (n : Node) (bound : List String) :
    n.mapValues f = n.edit (.onValues f) bound := by
  induction n using Node.induction_slots generalizing bound with
  | step n ih =>
      by_cases hl : n.kind = .table ∨ n.kind = .value
      · cases n
        case table | value => rfl
        all_goals simp [kind] at hl
      · obtain ⟨ht, hv⟩ := not_or.mp hl
        have hc : n.contents.map (mapValues f) =
            n.contents.map (edit (.onValues f) (n.bindings ++ bound)) := by
          rw [contents, List.map_map, List.map_map]
          exact List.map_congr_left fun s hs => ih s hs _
        have he := rebuilt_edit bound (Edit.keepsNames_onValues f) ht hv
        exact (rebuilt_mapValues f hv).unique (hc ▸ he)

theorem Node.edit_onValues (bound : List String) :
    edit (.onValues f) bound = mapValues f :=
  funext fun n => (n.mapValues_eq_edit f bound).symm

/-! ## Parts and walks -/

theorem Node.parts_mapValues (d : Dialect) (n : Node) :
    (n.mapValues f).parts d = (n.parts d).map (Node.mapValues f) := by
  by_cases h : n.kind = .table
  · cases n
    case table t => cases hs : t.schema <;> simp [parts, hs]
    all_goals cases h
  · rw [mapValues_eq_edit f n [], parts_edit _ _ h (fun _ _ => rfl), edit_onValues]

theorem Node.walk_mapValues (d : Dialect) (n : Node) :
    (n.mapValues f).walk d = (n.walk d).map (Node.mapValues f) := by
  induction n using Node.induction_parts d with
  | step n ih =>
      rw [walk_eq, walk_eq, parts_mapValues, List.flatMap_map, List.map_cons, List.map_flatMap]
      congr 1
      exact List.flatMap_congr ih

/-! ## Layouts -/

/-- A piece with its value changed. -/
def Piece.mapValues : Piece → Piece
  | .literal v => if (f v true).2 then .literal (f v true).1 else .bound (f v true).1
  | .bound v => if (f v false).2 then .literal (f v false).1 else .bound (f v false).1
  | p => p

/-- An item with its values changed. -/
def Item.mapValues : Item → Item
  | .piece p => .piece (p.mapValues f)
  | .part n => .part (n.mapValues f)
  | .refuse e => .refuse e

/-- A layout with its values changed. -/
def Layout.mapValues : Layout → Layout
  | .items is => .items (is.map (Item.mapValues f))
  | .clauses cs => .clauses (cs.map fun c => (c.1, c.2.map (Item.mapValues f)))

theorem Item.follows_mapValues : Follows (Item.mapValues f) (Node.mapValues f) where

theorem Layout.mapValues_eq_map (l : Layout) : l.mapValues f = l.map (Item.mapValues f) := by
  cases l <;> rfl

/-- Whether a change keeps the operand of a unary minus free of parentheses, or in them. -/
def Node.KeepsAtom (n : Node) : Prop :=
  ∀ m, n = .unary .neg m →
    OperandPosition.isAtom (m.mapValues f) = OperandPosition.isAtom m

/-- A change of values that moves no parentheses leaves the layout of a node as it is. -/
theorem Node.layout_mapValues (d : Dialect) (n : Node) (h : n.KeepsAtom f) :
    (n.mapValues f).layout d = (n.layout d).mapValues f := by
  by_cases hl : n.kind = .table ∨ n.kind = .value
  · cases n
    case table t =>
      cases hs : t.schema <;>
        simp [layout, Layout.mapValues, hs, (Item.follows_mapValues f).text,
          (Item.follows_mapValues f).part]
    case value v immediate => cases immediate <;> rfl
    all_goals simp [kind] at hl
  · obtain ⟨ht, hv⟩ := not_or.mp hl
    rw [mapValues_eq_edit f n [], Layout.mapValues_eq_map]
    refine layout_edit d (Edit.keepsNames_onValues f) ht hv ?_ (fun _ => rfl) fun m hm => ?_
    · rw [edit_onValues]
      exact Item.follows_mapValues f
    · rw [← mapValues_eq_edit]
      exact h m hm

/-! ## Renderings -/

theorem Piece.isEmpty_mapValues (p : Piece) : (p.mapValues f).isEmpty = p.isEmpty := by
  cases p with
  | text | name => rfl
  | literal v | bound v =>
      rw [mapValues]
      split <;> rfl

theorem Piece.spaced_mapValues (pss : List (List Piece)) :
    Dialect.spaced (pss.map (·.map (Piece.mapValues f))) =
      (Dialect.spaced pss).map (Piece.mapValues f) := by
  have hi (qss : List (List Piece)) :
      List.intercalate [.text " "] (qss.map (·.map (Piece.mapValues f))) =
        (List.intercalate [.text " "] qss).map (Piece.mapValues f) := by
    induction qss with
    | nil => rfl
    | cons qs qss ih =>
        cases qss with
        | nil => simp
        | cons rs rss =>
            rw [List.map_cons, List.map_cons, List.intercalate_cons_cons, ← List.map_cons, ih,
              List.intercalate_cons_cons, List.map_append, List.map_append]
            rfl
  rw [Dialect.spaced, Dialect.spaced, ← hi, List.filter_map]
  congr 3
  funext ps
  simp [List.all_map, Function.comp_def, isEmpty_mapValues, -List.all_eq_true]

theorem Item.renderAll_mapValues {d : Dialect} {b : Bool} {is : List Item}
    (h : ∀ m ∈ parts is,
      (m.mapValues f).render d b = (m.render d b).map (·.map (Piece.mapValues f))) :
    renderAll d b (is.map (Item.mapValues f)) =
      (renderAll d b is).map (·.map (Piece.mapValues f)) := by
  induction is with
  | nil => rfl
  | cons i is ih =>
      have hi : (i.mapValues f).render d b =
          (i.render d b).map (·.map (Piece.mapValues f)) := by
        cases i with
        | piece | refuse => rfl
        | part n => exact h n List.mem_cons_self
      have his := ih fun m hm => h m (by cases i <;> simp [hm])
      rw [List.map_cons, renderAll_cons, renderAll_cons, hi, his]
      cases i.render d b with
      | error e => rfl
      | ok ps => cases renderAll d b is <;> simp [Rendering.ok_append, Except.map]

theorem Layout.render_mapValues {d : Dialect} {b : Bool} {l : Layout}
    (h : ∀ m ∈ Item.parts l.all,
      (m.mapValues f).render d b = (m.render d b).map (·.map (Piece.mapValues f))) :
    (l.mapValues f).render d b = (l.render d b).map (·.map (Piece.mapValues f)) := by
  cases l with
  | items is => exact Item.renderAll_mapValues f h
  | clauses cs =>
      have hc : ∀ c ∈ cs, Item.renderAll d b (c.2.map (Item.mapValues f)) =
          (·.map (Piece.mapValues f)) <$> Item.renderAll d b c.2 := fun c hc =>
        Item.renderAll_mapValues f fun m hm => h m (parts_subset_of_mem hc hm)
      rw [mapValues, render, List.mapM_map, Function.comp_def, mapM_congr hc, ← map_mapM, render]
      cases cs.mapM fun c => Item.renderAll d b c.2 with
      | error e => rfl
      | ok pss => exact congrArg Except.ok (Piece.spaced_mapValues f pss)

theorem Rendering.parenthesized_map (w : Bool) (r : Rendering) :
    parenthesized w (r.map (·.map (Piece.mapValues f))) =
      (parenthesized w r).map (·.map (Piece.mapValues f)) := by
  cases w with
  | false => rfl
  | true => cases r <;> simp [Rendering.text, ok_append, Except.map, Piece.mapValues]

theorem Dialect.gate_map (d : Dialect) (k : Kind) (r : Rendering) :
    d.gate k (r.map (·.map (Piece.mapValues f))) =
      (d.gate k r).map (·.map (Piece.mapValues f)) := by
  rw [gate, gate]
  split <;> rfl

/-- The pieces of a tree with changed values are the pieces of the tree with changed values. -/
theorem Node.render_mapValues {d : Dialect} {n : Node} (h : ∀ m ∈ n.walk d, m.KeepsAtom f)
    (nested : Bool) :
    (n.mapValues f).render d nested = (n.render d nested).map (·.map (Piece.mapValues f)) := by
  induction n using Node.induction_parts d generalizing nested with
  | step n ih =>
      rw [walk_eq, List.forall_mem_cons] at h
      have hp : ∀ m ∈ n.parts d, ∀ k ∈ m.walk d, k.KeepsAtom f := fun m hm k hk =>
        h.2 k (List.mem_flatMap.mpr ⟨m, hm, hk⟩)
      rw [render_eq, render_eq, kind_mapValues, layout_mapValues f d n h.1,
        Layout.render_mapValues f fun m hm =>
          ih m (mem_parts_of_layout hm) (hp m (mem_parts_of_layout hm)) _,
        Rendering.parenthesized_map, Dialect.gate_map]

end MapValues

end SqlTree
