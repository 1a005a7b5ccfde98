import SqlTree.Proofs.Editing.Edit
import SqlTree.Proofs.Passes.Rebuilt

/-! # The nodes of an edited tree

An edit of a tree is the edit of the nodes below it. The names bound around them are those around
the tree and those that the tree binds itself. -/

namespace SqlTree

section Edit

variable (e : Edit) (bound : List String)

theorem Select.clauseParts_edit (q : Select Node) (c : Clause) :
    (q.edit e bound).clauseParts c = (q.clauseParts c).map (Node.edit e bound) := by
  obtain ⟨fromItems, selections, distinct, joins, whereClause, groupBy, having, orderBy, limit,
    offset, withClause, explain, top, endModifiers⟩ := q
  cases c <;> simp [edit, clauseParts, Option.toList_map, getD_map]

theorem Insert.clauseParts_edit (q : Insert Node) (c : Clause) :
    (q.edit e bound).clauseParts c = (q.clauseParts c).map (Node.edit e bound) := by
  obtain ⟨into, columns, source, defaultValues, ignore, onConflict, returning, output, withClause,
    explain, top, endModifiers⟩ := q
  cases c <;> simp [edit, clauseParts, Option.toList_map, getD_map]

theorem Update.clauseParts_edit (q : Update Node) (c : Clause) :
    (q.edit e bound).clauseParts c = (q.clauseParts c).map (Node.edit e bound) := by
  obtain ⟨table, assignments, fromItems, joins, whereClause, returning, output, withClause,
    orderBy, limit, top, explain, endModifiers⟩ := q
  cases c <;> simp [edit, clauseParts, Option.toList_map, getD_map]

theorem Delete.clauseParts_edit (q : Delete Node) (c : Clause) :
    (q.edit e bound).clauseParts c = (q.clauseParts c).map (Node.edit e bound) := by
  obtain ⟨fromItems, usingItems, joins, whereClause, returning, withClause, orderBy, limit, explain,
    endModifiers, top, output⟩ := q
  cases c <;> simp [edit, clauseParts, Option.toList_map, getD_map]

/-- Tables are edited as a whole, all other nodes child by child. -/
theorem Node.children_edit {n : Node} (h : n.kind ≠ .table) :
    (n.edit e bound).children = n.children.map (Node.edit e (n.bindings ++ bound)) := by
  cases n
  case table => exact absurd rfl h
  case select q =>
    rw [edit, children, funext (q.clauseParts_edit e _), children, bindings, List.map_flatMap]
  case insert q =>
    rw [edit, children, funext (q.clauseParts_edit e _), children, bindings, List.map_flatMap]
  case update q =>
    rw [edit, children, funext (q.clauseParts_edit e _), children, bindings, List.map_flatMap]
  case delete q =>
    rw [edit, children, funext (q.clauseParts_edit e _), children, bindings, List.map_flatMap]
  all_goals simp [edit, children, parts, bindings, Option.toList_map, getD_map, Column.edit,
    CteName.edit, SortItem.edit_eq, Join.edit_eq, Explain.edit_eq, With.edit_eq, Cte.edit_eq,
    Assignment.edit_eq, OnConflict.edit_eq, Function.comp_def]

/-- Whether an edit keeps as many fragments of a raw text as it has parameters, if there are so
many; then the same parameters are written. -/
def Edit.KeepsParameters : Prop :=
  ∀ (fs : List String) (k : Nat), min (e.fragments fs k).length k = min fs.length k

theorem Node.parts_edit {n : Node} (h : n.kind ≠ .table) (he : e.KeepsParameters) (d : Dialect) :
    (n.edit e bound).parts d = (n.parts d).map (Node.edit e (n.bindings ++ bound)) := by
  cases hn : n.kind.hides
  case false =>
    rw [parts_eq_children d hn, parts_eq_children d (by rwa [kind_edit]), children_edit e bound h]
  cases n
  case raw fragments ns =>
    have ht : ns.take (e.fragments fragments ns.length).length = ns.take fragments.length := by
      rw [List.take_eq_take_iff, he]
    simp only [edit, parts, bindings, List.nil_append, editAll_eq, ← ht, List.map_take]
  case onConflict c =>
    cases hc : c.doNothing <;>
      simp [edit, parts, bindings, OnConflict.edit_eq, getD_map, Option.toList_map, hc, Column.edit,
        Function.comp_def]
  case select q =>
    rw [edit, parts, funext (q.clauseParts_edit e _), parts, bindings, List.map_flatMap]
  case insert q =>
    rw [edit, parts, funext (q.clauseParts_edit e _), parts, bindings, List.map_flatMap]
  case update q =>
    rw [edit, parts, funext (q.clauseParts_edit e _), parts, bindings, List.map_flatMap]
  case delete q =>
    rw [edit, parts, funext (q.clauseParts_edit e _), parts, bindings, List.map_flatMap]
  all_goals cases hn

/-! ## Slots -/

open Port

/-- An edit does to a node what it does to the nodes in its slots, where the names of the node are
bound as well. Only a table has nodes in its slots that the edit does not see. -/
theorem Node.groups_edit {n : Node} (h : n.kind ≠ .table) :
    (n.edit e bound).groups = n.groups.map (·.map (Node.edit e (n.bindings ++ bound))) := by
  cases n
  case table => exact absurd rfl h
  case' select q | insert q | update q | delete q => cases q
  all_goals
    simp [groups, fields, only, Port.any, bindings, KindOf.identifier, KindOf.table,
      KindOf.column, KindOf.operator, KindOf.valueList, KindOf.on, KindOf.selection,
      KindOf.orderByItem, KindOf.cte, KindOf.cteName, KindOf.assignment, KindOf.where,
      KindOf.with, KindOf.explain, KindOf.top, KindOf.from, KindOf.join, KindOf.using,
      KindOf.onConflict, KindOf.returning, KindOf.output, KindOf.groupBy, KindOf.having,
      KindOf.orderBy, KindOf.limit, KindOf.offset, Option.toList_map, getD_map, Column.edit,
      CteName.edit, SortItem.edit_eq, Join.edit_eq, Explain.edit_eq, With.edit_eq, Cte.edit_eq,
      Assignment.edit_eq, OnConflict.edit_eq, Select.edit, Insert.edit, Update.edit,
      Delete.edit, Function.comp_def]

variable {e}

theorem Node.scalars_edit (he : e.KeepsNames) {n : Node} (hv : n.kind ≠ .value) :
    (n.edit e bound).scalars = n.scalars := by
  cases n
  case value => exact absurd rfl hv
  case' select q | insert q | update q | delete q => cases q
  all_goals simp [scalars, Select.edit, Insert.edit, Update.edit, Delete.edit, CteName.edit,
    SortItem.edit_eq, Join.edit_eq, Explain.edit_eq, With.edit_eq, Cte.edit_eq, OnConflict.edit_eq,
    he.identifier, he.function, he.fragments]

/-- An edit of tables and values rebuilds all other nodes. -/
theorem Node.rebuilt_edit (he : e.KeepsNames) {n : Node} (ht : n.kind ≠ .table)
    (hv : n.kind ≠ .value) :
    n.Rebuilt (n.contents.map (edit e (n.bindings ++ bound))) (n.edit e bound) :=
  .of_groups (n.kind_edit _ _) (scalars_edit bound he hv) (groups_edit e bound ht)

end Edit

end SqlTree
