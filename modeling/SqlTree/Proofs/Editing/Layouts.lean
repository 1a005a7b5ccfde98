import SqlTree.Proofs.Editing.Edit
import SqlTree.Proofs.Emission.Mapping

/-! # The layout of an edited node

An edit of tables and values changes what the layouts of all other nodes are made of, and not the
layouts: the rules write the same items around the edited parts. The one thing that can move are
the parentheses around the operand of a minus. -/

namespace SqlTree

open Item Layout

variable {e : Edit} {bound : List String} {t : Item → Item}

/-! ## Statements -/

section Statements

variable (ht : Follows t (Node.edit e bound))
include ht

theorem Select.layout_edit (q : Select Node) :
    (q.edit e bound).layout = q.layout.map fun c => (c.1, c.2.map t) := by
  obtain ⟨fromItems, selections, distinct, joins, whereClause, groupBy, having, orderBy, limit,
    offset, withClause, explain, top, endModifiers⟩ := q
  simp only [edit, layout, List.map_append, clause_map, ht.single, Node.editOptAll_eq,
    Join.editOptAll_eq, Node.editOpt_eq, SortItem.editOptAll_eq, With.editOpt_eq,
    Explain.editOpt_eq, Option.map_map, Function.comp_def, Node.edit, Node.editAll_eq,
    SortItem.editAll_eq, ht.separated, List.map_map, List.map_cons, List.map_nil, ht.text]
  congr 13
  rcases selections with _ | _ | ⟨n, ns⟩ <;> simp [Function.comp_def, ht.separated, ht.text]

theorem Insert.layout_edit (q : Insert Node) (keyword : String) :
    (q.edit e bound).layout keyword =
      (q.layout keyword).map fun c => (c.1, c.2.map t) := by
  obtain ⟨into, columns, source, defaultValues, ignore, onConflict, returning, output, withClause,
    explain, top, endModifiers⟩ := q
  simp only [edit, layout, List.map_append, clause_map, ht.single, Node.editOptAll_eq,
    Node.editOpt_eq, With.editOpt_eq, Explain.editOpt_eq, OnConflict.editOpt_eq, Option.map_map,
    Function.comp_def, Node.edit, Node.editAll_eq, ht.separated, List.map_cons, List.map_nil,
    ht.text, ht.part]
  congr 9
  · cases source <;> simp [ht.part, ht.text]
  · funext cs
    cases cs <;> simp [Function.comp_def, ht.tuple, Column.edit]

theorem Update.layout_edit (q : Update Node) (as : List (Assignment Node)) :
    (q.edit e bound).layout (as.map (Assignment.edit e bound)) =
      (q.layout as).map fun c => (c.1, c.2.map t) := by
  obtain ⟨table, assignments, fromItems, joins, whereClause, returning, output, withClause,
    orderBy, limit, top, explain, endModifiers⟩ := q
  simp only [edit, layout, List.map_append, clause_map, ht.single, Node.editOptAll_eq,
    Join.editOptAll_eq, Node.editOpt_eq, SortItem.editOptAll_eq, With.editOpt_eq,
    Explain.editOpt_eq, Option.map_map, Function.comp_def, Node.edit, Node.editAll_eq,
    SortItem.editAll_eq, ht.separated, List.map_map, List.map_cons, List.map_nil, ht.listed,
    ht.part, ht.text]

theorem Delete.layout_edit (q : Delete Node) :
    (q.edit e bound).layout = q.layout.map fun c => (c.1, c.2.map t) := by
  obtain ⟨fromItems, usingItems, joins, whereClause, returning, withClause, orderBy, limit, explain,
    endModifiers, top, output⟩ := q
  simp only [edit, layout, List.map_append, clause_map, ht.single, Node.editOptAll_eq,
    Join.editOptAll_eq, Node.editOpt_eq, SortItem.editOptAll_eq, With.editOpt_eq,
    Explain.editOpt_eq, Option.map_map, Function.comp_def, Node.edit, Node.editAll_eq,
    SortItem.editAll_eq, ht.separated, List.map_map, List.map_cons, List.map_nil, ht.part, ht.text]

theorem Explain.layout_edit (d : Dialect) (x : Explain Node) :
    (x.edit e bound).layout d = (x.layout d).map t := by
  obtain ⟨format, options⟩ := x
  cases format <;> cases options <;> cases hx : d.explainSyntax <;>
    simp [edit_eq, layout, hx, ht.text, ht.part, ht.refuse]

theorem OnConflict.layout_edit (c : OnConflict Node) :
    (c.edit e bound).layout = c.layout.map t := by
  obtain ⟨columns, constraint, doNothing, updates, updateWhere⟩ := c
  cases columns <;> cases constraint <;> cases doNothing <;>
    rcases updates with _ | _ | ⟨u, us⟩ <;> cases updateWhere <;>
    simp [edit_eq, layout, Function.comp_def, ht.text, ht.part, ht.refuse, ht.tuple, ht.listed]

end Statements

theorem Insert.source_edit (q : Insert Node) :
    (q.edit e bound).source = q.source.map (Node.edit e bound) := by
  cases q
  rw [edit, Node.editOpt_eq]

theorem Insert.flags_edit (q : Insert Node) :
    (q.edit e bound).defaultValues = q.defaultValues ∧ (q.edit e bound).ignore = q.ignore := by
  cases q
  exact ⟨rfl, rfl⟩

theorem Update.assignments_edit (q : Update Node) :
    (q.edit e bound).assignments = q.assignments.map (·.map (Assignment.edit e bound)) := by
  cases q
  rw [edit, Assignment.editOptAll_eq]

/-! ## Nodes -/

theorem OperandPosition.parenthesizes_edit {p : OperandPosition} (hp : p ≠ .negated) (n : Node) :
    p.parenthesizes (n.edit e bound) = p.parenthesizes n := by
  cases p
  case negated => exact absurd rfl hp
  all_goals cases n <;> rfl

/-- What an edit of tables and values does to the parts of a node it does to the layout, unless it
turns the operand of a minus into an atom or the other way round. -/
theorem Node.layout_edit (d : Dialect) (he : e.KeepsNames) {n : Node} (htable : n.kind ≠ .table)
    (hvalue : n.kind ≠ .value) (ht : Follows t (edit e (n.bindings ++ bound)))
    (hname : ∀ s, t (.piece (.name s)) = .piece (.name s))
    (hatom : ∀ m, n = .unary .neg m →
      OperandPosition.isAtom (m.edit e bound) = OperandPosition.isAtom m) :
    (n.edit e bound).layout d = (n.layout d).map t := by
  cases n
  all_goals simp only [bindings, List.nil_append] at ht
  case table => exact absurd rfl htable
  case value => exact absurd rfl hvalue
  case select q => rw [edit, layout, q.layout_edit ht, layout, ht.statement]
  case delete q => rw [edit, layout, q.layout_edit ht, layout, ht.statement]
  case insert q =>
    rw [edit, layout, layout, q.source_edit, q.flags_edit.1, q.flags_edit.2, Option.isNone_map]
    split
    · simp [Layout.map, ht.refuse]
    · split
      · simp [Layout.map, ht.refuse]
      · rw [q.layout_edit ht, ht.statement]
  case update q =>
    rw [edit, layout, layout, q.assignments_edit]
    rcases q.assignments with _ | _ | ⟨a, as⟩
    · simp [Layout.map, ht.refuse]
    · simp [Layout.map, ht.refuse]
    · exact (congrArg _ (q.layout_edit ht (a :: as))).trans (ht.statement d _ _).symm
  case explain x => exact congrArg Layout.items (x.layout_edit ht d)
  case onConflict c => exact congrArg Layout.items (c.layout_edit ht)
  case identifier i => simp [layout, Layout.map, he.identifier, hname]
  case unary op n =>
    by_cases hop : op = .neg
    · simp [layout, Layout.map, hop, OperandPosition.parenthesizes_negated, hatom n (hop ▸ rfl),
        ht.part, ht.grouped]
    · simp [layout, Layout.map, hop, OperandPosition.parenthesizes_edit, ht.text, ht.part,
        ht.grouped]
  all_goals simp [layout, Layout.map, SortItem.edit_eq, Join.edit_eq, With.edit_eq,
    Cte.edit_eq, Assignment.edit_eq, CteName.edit, Column.edit, he.function, he.fragments,
    OperandPosition.parenthesizes_edit, Function.comp_def, ht.text, ht.part, ht.listed, ht.tuple,
    ht.grouped, ht.interleaved]
  case reference t c => cases t <;> simp [ht.part, ht.text]
  case join j => cases j.condition <;> simp [ht.part, ht.text]
  case cteName n =>
    cases n.columns <;> simp [Function.comp_def, Column.edit, ht.tuple]

end SqlTree
