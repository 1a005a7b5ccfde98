import SqlTree.Proofs.Editing.Qualify

/-! # Places in a qualified tree

A place is the way down to a node by the numbers of slots. What the pass that qualifies tables
makes of a node is the node rebuilt around what it makes of the nodes in the slots, so every node
but the identifiers of a table stays at its place, and only the names bound around the place decide
about it. -/

namespace SqlTree

theorem Node.bindings_edit_qualifying (schema : Identifier) (n : Node) (bound : List String) :
    (n.edit (.qualifying schema) bound).bindings = n.bindings := by
  have hw (w : Option (With Node)) (bound : List String) :
      With.bindings (w.map (With.edit (.qualifying schema) bound)) = With.bindings w := by
    cases w <;> simp [With.bindings, With.names, With.edit_eq, Cte.edit_eq,
      CteName.edit_qualifying, Function.comp_def]
  cases n
  case select q => cases q; simp [Select.edit, bindings, hw]
  case insert q => cases q; simp [Insert.edit, bindings, hw]
  case update q => cases q; simp [Update.edit, bindings, hw]
  case delete q => cases q; simp [Delete.edit, bindings, hw]
  all_goals rfl

/-! ## Places -/

namespace Node

/-- The node at a place, if there is one. -/
def at? (n : Node) : List Nat → Option Node
  | [] => some n
  | i :: p => n.contents[i]?.bind fun m => m.at? p

/-- The names that are bound at a place below a node: those of the statements that the way leads
out of. -/
def boundAt (n : Node) : List Nat → List String
  | [] => []
  | i :: p => (n.contents[i]?.elim [] fun m => m.boundAt p) ++ n.bindings

theorem at?_cons_eq_some {n m : Node} {i : Nat} {p : List Nat} :
    n.at? (i :: p) = some m ↔ ∃ k, n.contents[i]? = some k ∧ k.at? p = some m := by
  simp [at?, Option.bind_eq_some_iff]

theorem at?_append (n : Node) (p q : List Nat) :
    n.at? (p ++ q) = (n.at? p).bind (·.at? q) := by
  induction p generalizing n with
  | nil => rfl
  | cons i p ih =>
      rw [List.cons_append, at?, at?]
      cases n.contents[i]? with
      | none => rfl
      | some k => exact ih k

theorem boundAt_append {n m : Node} {p : List Nat} (h : n.at? p = some m) (q : List Nat) :
    n.boundAt (p ++ q) = m.boundAt q ++ n.boundAt p := by
  induction p generalizing n with
  | nil =>
      cases h
      exact (List.append_nil _).symm
  | cons i p ih =>
      obtain ⟨k, hk, hp⟩ := at?_cons_eq_some.mp h
      rw [List.cons_append, boundAt, boundAt, hk, Option.elim_some, Option.elim_some, ih hp,
        List.append_assoc]

/-- Below a table there are identifiers only. -/
theorem kind_eq_identifier_of_table {n m : Node} (hn : n.kind = .table) {i : Nat} {p : List Nat}
    (h : n.at? (i :: p) = some m) : m.kind = .identifier := by
  obtain ⟨k, hk, hp⟩ := at?_cons_eq_some.mp h
  have hi : ∃ a, k = .identifier a := by
    have hm := List.mem_of_getElem? hk
    cases n
    case table t =>
      simp [contents, slots, fields, Port.only, Port.slots, KindOf.identifier] at hm
      obtain ⟨a, -, rfl⟩ | rfl := hm
      · exact ⟨a, rfl⟩
      · exact ⟨t.table, rfl⟩
    all_goals cases hn
  obtain ⟨a, rfl⟩ := hi
  cases p with
  | nil =>
      cases hp
      rfl
  | cons j p => simp [at?, contents, slots, fields] at hp

/-- The pass changes what is at a place by the names that are bound there. -/
theorem at?_edit_qualifying (schema : Identifier) {n m : Node} {p : List Nat} (bound : List String)
    (h : n.at? p = some m) (hm : m.kind ≠ .identifier) :
    (n.edit (.qualifying schema) bound).at? p =
      some (m.edit (.qualifying schema) (n.boundAt p ++ bound)) := by
  induction p generalizing n bound with
  | nil =>
      cases h
      rfl
  | cons i p ih =>
      have hn : n.kind ≠ .table := fun hn => hm (kind_eq_identifier_of_table hn h)
      obtain ⟨k, hk, hp⟩ := at?_cons_eq_some.mp h
      rw [at?, (rebuilt_qualifying schema hn bound).contents, List.getElem?_map, hk,
        Option.map_some, Option.bind_some, ih _ hp, boundAt, hk, Option.elim_some,
        List.append_assoc]

end Node

end SqlTree
