import SqlTree.Proofs.Passes.Slots

/-! # Rebuilding a node

A node is its kind, its scalars and the nodes in its slots. Around other nodes that fit the slots
there is one node with the same kind, the same scalars and as many slots in each field. -/

namespace SqlTree

open Port

namespace Node

variable {n m : Node} {cs : List Node}

/-! ## Field by field -/

/-- The nodes in the slots of each field. -/
def groups (n : Node) : List (List Node) := n.fields.map (·.map Slot.node)

theorem kind_refill (n : Node) (css : List (List Node)) : (n.refill css).kind = n.kind := by
  cases n <;> rfl

theorem scalars_refill (n : Node) (css : List (List Node)) :
    (n.refill css).scalars = n.scalars := by
  cases n <;> simp [refill, scalars, optAll]

theorem groups_refill {css : List (List Node)}
    (h : List.Forall₂ (List.Forall₂ Slot.Takes) n.fields css) : (n.refill css).groups = css := by
  cases n
  case valueList | raw | function | «from» | «using» | returning | output | orderBy | groupBy |
      «with» | values =>
    simp only [fields, List.forall₂_cons_left_iff, List.forall₂_nil_left_iff, takes_slots_iff] at h
    obtain ⟨_, _, ⟨as, -, rfl⟩, rfl, rfl⟩ := h
    simp [groups, fields, refill, all]
  all_goals
    simp only [fields, List.forall₂_cons_left_iff, List.forall₂_nil_left_iff, takes_one_iff,
      takes_opt_iff, takes_optAll_iff, exists_and_left, ↓existsAndEq, true_and, and_true] at h
  case identifier | selectAll | value | operator | top | modifier =>
    subst h
    rfl
  case column | parens | «on» | «where» | selection | orderByItem | having | limit | offset =>
    obtain ⟨a, rfl⟩ := h
    simp [groups, fields, refill, one]
  case «alias» | unary | and | or | cte | assignment =>
    obtain ⟨a, b, rfl⟩ := h
    simp [groups, fields, refill, one]
  case binary =>
    obtain ⟨a, b, c, rfl⟩ := h
    simp [groups, fields, refill, one]
  case explain =>
    obtain ⟨x, -, rfl⟩ := h
    simp [groups, fields, refill, opt]
  case table | reference =>
    obtain ⟨x, -, a, rfl⟩ := h
    simp [groups, fields, refill, one, opt]
  case join =>
    obtain ⟨a, x, -, rfl⟩ := h
    simp [groups, fields, refill, one, opt]
  case cteName =>
    obtain ⟨a, xs, hx, rfl⟩ := h
    simp [groups, fields, refill, one, optAll,
      map_const_getD (isSome_eq_of_lengths hx)]
  case onConflict =>
    obtain ⟨columns, hc, constraint, updates, updateWhere, ⟨-, hu, -⟩, rfl⟩ := h
    simp [groups, fields, refill, opt, optAll,
      map_const_getD (isSome_eq_of_lengths hc),
      map_const_getD (isSome_eq_of_lengths hu)]
  case select =>
    obtain ⟨withs, -, explain, top, selections, items, joins, predicate, groupBy, having, orderBy,
      limit, offset, modifiers, ⟨-, -, hs, -, hj, -, -, -, -, -, -, hm⟩, rfl⟩ := h
    simp [groups, fields, refill, opt, optAll,
      map_const_getD (isSome_eq_of_lengths hs),
      map_const_getD (isSome_eq_of_lengths hj),
      map_const_getD (isSome_eq_of_lengths hm)]
  case insert =>
    obtain ⟨withs, -, explain, top, into, columns, source, onConflict, returning, output,
      modifiers, ⟨-, -, hc, -, -, -, -, hm⟩, rfl⟩ := h
    simp [groups, fields, refill, one, opt, optAll,
      map_const_getD (isSome_eq_of_lengths hc),
      map_const_getD (isSome_eq_of_lengths hm)]
  case update =>
    obtain ⟨withs, -, explain, top, table, assignments, items, joins, predicate, returning, output,
      orderBy, limit, modifiers, ⟨-, -, ha, -, hj, -, -, -, -, -, hm⟩, rfl⟩ := h
    simp [groups, fields, refill, one, opt, optAll,
      map_const_getD (isSome_eq_of_lengths ha),
      map_const_getD (isSome_eq_of_lengths hj),
      map_const_getD (isSome_eq_of_lengths hm)]
  case delete =>
    obtain ⟨withs, -, explain, top, items, usingItems, joins, predicate, returning, output,
      orderBy, limit, modifiers, ⟨-, -, -, hj, -, -, -, -, -, hm⟩, rfl⟩ := h
    simp [groups, fields, refill, one, opt, optAll,
      map_const_getD (isSome_eq_of_lengths hj),
      map_const_getD (isSome_eq_of_lengths hm)]

/-- The kind, the scalars and the nodes in the slots of each field make up a node. -/
theorem refill_groups (hk : m.kind = n.kind) (hs : m.scalars = n.scalars) :
    n.refill m.groups = m := by
  cases m <;> cases n <;> cases hk
  all_goals simp [scalars] at hs
  case value | operator | function | raw | join | orderByItem | explain | «with» |
      cte | modifier =>
    simp [groups, fields, refill, one, opt, all, ← hs]
  case cteName =>
    simp [groups, fields, refill, one, optAll, map_const_getD hs]
  case identifier i j =>
    cases i
    cases hs
    rfl
  case top t u =>
    obtain ⟨hc, hm⟩ := hs
    cases t
    cases hc
    cases hm
    rfl
  case onConflict =>
    obtain ⟨hd, hc, hu⟩ := hs
    simp [groups, fields, refill, opt, optAll, map_const_getD hc, map_const_getD hu,
      ← hd]
  case select =>
    obtain ⟨hd, hs, hj, hm⟩ := hs
    simp [groups, fields, refill, opt, optAll, map_const_getD hs, map_const_getD hj,
      map_const_getD hm, ← hd]
  case insert =>
    obtain ⟨hd, hi, hc, hm⟩ := hs
    simp [groups, fields, refill, one, opt, optAll, map_const_getD hc,
      map_const_getD hm, ← hd, ← hi]
  case update =>
    obtain ⟨ha, hj, hm⟩ := hs
    simp [groups, fields, refill, one, opt, optAll, map_const_getD ha,
      map_const_getD hj, map_const_getD hm]
  case delete =>
    obtain ⟨hj, hm⟩ := hs
    simp [groups, fields, refill, one, opt, optAll, map_const_getD hj,
      map_const_getD hm]
  all_goals simp [groups, fields, refill, one, opt, all]

/-! ## All slots at once -/

/-- The slots of a node, field by field. -/
def slots (n : Node) : List Slot := n.fields.flatten

/-- The nodes in the slots of a node. -/
def contents (n : Node) : List Node := n.slots.map Slot.node

/-- The number of slots of each field. -/
def arities (n : Node) : List Nat := n.fields.map List.length

/-- One node for each slot, of a kind that the slot takes. -/
def Admits (n : Node) (cs : List Node) : Prop := List.Forall₂ Slot.Takes n.slots cs

/-- A node with other nodes in its slots. -/
def fill (n : Node) (cs : List Node) : Node := n.refill (n.arities.splitLengths cs)

/-- A node is another one rebuilt around some nodes: they are in its slots, and it differs in
nothing else. -/
structure Rebuilt (n : Node) (cs : List Node) (m : Node) : Prop where
  kind : m.kind = n.kind
  scalars : m.scalars = n.scalars
  arities : m.arities = n.arities
  contents : m.contents = cs

theorem flatten_groups (n : Node) : n.groups.flatten = n.contents := by
  rw [contents, slots, List.map_flatten]
  rfl

theorem map_length_groups (n : Node) : n.groups.map List.length = n.arities := by
  simp [groups, arities]

theorem rebuilt_self (n : Node) : n.Rebuilt n.contents n := ⟨rfl, rfl, rfl, rfl⟩

/-- A node that differs from another one by a function on the nodes in the slots is that one
rebuilt. -/
theorem Rebuilt.of_groups {g : Node → Node} (hk : m.kind = n.kind) (hs : m.scalars = n.scalars)
    (hg : m.groups = n.groups.map (·.map g)) : n.Rebuilt (n.contents.map g) m := by
  refine ⟨hk, hs, ?_, ?_⟩
  · rw [← map_length_groups, ← map_length_groups, hg]
    simp
  · rw [← flatten_groups, ← flatten_groups, hg, List.map_flatten]

theorem Rebuilt.eq_fill (h : n.Rebuilt cs m) : m = n.fill cs := by
  have hg : m.groups = n.arities.splitLengths cs := by
    rw [← h.arities, ← h.contents, ← map_length_groups, ← flatten_groups,
      splitLengths_flatten]
  rw [fill, ← hg, refill_groups h.kind h.scalars]

/-- There is at most one node rebuilt around given nodes. -/
theorem Rebuilt.unique {k : Node} (hm : n.Rebuilt cs m) (hk : n.Rebuilt cs k) : m = k :=
  hm.eq_fill.trans hk.eq_fill.symm

/-- Around nodes that fit there is one. -/
theorem rebuilt_fill (h : n.Admits cs) : n.Rebuilt cs (n.fill cs) := by
  have hf := forall₂_splitLengths h
  have hg : (n.fill cs).groups = n.arities.splitLengths cs := groups_refill hf
  have hl : cs.length = n.arities.sum := by
    rw [← h.length_eq, slots, List.length_flatten, arities]
  refine ⟨kind_refill n _, scalars_refill n _, ?_, ?_⟩
  · rw [← map_length_groups, hg, List.map_splitLengths_length _ _ hl.ge]
  · rw [← flatten_groups, hg, List.flatten_splitLengths _ _ hl.le]

theorem fill_contents (n : Node) : n.fill n.contents = n := n.rebuilt_self.eq_fill.symm

/-- The nodes in the slots of a node are of the kinds that the slots take. -/
theorem admits_contents (n : Node) : n.Admits n.contents := by
  have h : List.Forall₂ (List.Forall₂ Slot.Takes) n.fields n.groups := by
    cases n <;> simp only [groups, fields, List.map_cons, List.map_nil, List.forall₂_cons,
      List.Forall₂.nil, takes_self, and_self]
  rw [Admits, ← flatten_groups]
  exact List.rel_flatten h

theorem takes_of_mem_slots {s : Slot} (h : s ∈ n.slots) : s.Takes s.node := by
  have hf := n.admits_contents
  rw [Admits, contents, List.forall₂_map_right_iff, List.forall₂_same] at hf
  exact hf s h

/-! ## Slots and children -/

open List in
/-- The slots hold the children of a node, in the order of passes. -/
theorem contents_perm_children (n : Node) : n.contents ~ n.children := by
  classical
  -- Counting must not use the comparison of nodes that a program runs.
  refine (@perm_iff_count _ instBEqOfDecidableEq inferInstance _ _).mpr fun a => ?_
  rw [← flatten_groups]
  cases n
  case select q =>
    simp [groups, fields, children, Named.all, Select.clauseParts, only, Port.any, KindOf.with,
      KindOf.explain, KindOf.top, KindOf.selection, KindOf.from, KindOf.join, KindOf.where,
      KindOf.groupBy, KindOf.having, KindOf.orderBy, KindOf.limit, KindOf.offset]
    omega
  case insert q =>
    simp [groups, fields, children, Named.all, Insert.clauseParts, only, Port.any, KindOf.with,
      KindOf.explain, KindOf.top, KindOf.table, KindOf.column, KindOf.onConflict,
      KindOf.returning, KindOf.output]
    omega
  case update q =>
    simp [groups, fields, children, Named.all, Update.clauseParts, only, Port.any, KindOf.with,
      KindOf.explain, KindOf.top, KindOf.assignment, KindOf.from, KindOf.join, KindOf.where,
      KindOf.returning, KindOf.output, KindOf.orderBy, KindOf.limit]
    omega
  case delete q =>
    simp [groups, fields, children, Named.all, Delete.clauseParts, only, Port.any, KindOf.with,
      KindOf.explain, KindOf.top, KindOf.from, KindOf.using, KindOf.join, KindOf.where,
      KindOf.returning, KindOf.output, KindOf.orderBy, KindOf.limit]
    omega
  all_goals
    simp [groups, fields, children, parts, only, Port.any, KindOf.identifier, KindOf.table,
      KindOf.column, KindOf.operator, KindOf.valueList, KindOf.on, KindOf.selection,
      KindOf.orderByItem, KindOf.cte, KindOf.cteName, KindOf.assignment, KindOf.where]

theorem sizeOf_lt_of_mem_slots {s : Slot} (h : s ∈ n.slots) : sizeOf s.node < sizeOf n :=
  sizeOf_children (n.contents_perm_children.mem_iff.mp (List.mem_map_of_mem h))

/-- Induction over a tree by its slots. -/
theorem induction_slots {P : Node → Prop} (step : ∀ n, (∀ s ∈ n.slots, P s.node) → P n)
    (n : Node) : P n := by
  induction n using Node.induction_children with
  | step n ih =>
      exact step n fun s hs =>
        ih s.node (n.contents_perm_children.mem_iff.mp (List.mem_map_of_mem hs))

end Node

/-- Induction over the slots of a forest: those below the first one, then the others. -/
theorem Slot.induction {P : List Slot → Prop} (nil : P [])
    (cons : ∀ s ss, P s.node.slots → P ss → P (s :: ss)) (ss : List Slot) : P ss := by
  have hlist : ∀ ss : List Slot, (∀ s ∈ ss, P s.node.slots) → P ss := by
    intro ss h
    induction ss with
    | nil => exact nil
    | cons s ss ih =>
        obtain ⟨hs, hss⟩ := List.forall_mem_cons.mp h
        exact cons s ss hs (ih hss)
  have htree : ∀ n : Node, P n.slots := by
    intro n
    induction n using Node.induction_slots with
    | step n ih => exact hlist n.slots ih
  exact hlist ss fun s _ => htree s.node

end SqlTree
