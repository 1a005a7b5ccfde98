import SqlTree.Proofs.Qualifying.Places

/-! # Qualifying twice

A tree is settled when every table in it has a schema or a name that is bound around it. The trees
that the pass does not change are the settled ones, whatever the schema, and it makes settled
trees: it binds no name and frees none. -/

namespace SqlTree

namespace Node

variable {n m : Node} {bound : List String}

/-- No table is left for the pass, where some names are bound around the tree. -/
def Settled (bound : List String) (n : Node) : Prop :=
  ∀ p t, n.at? p = some (.table t) → t.schema = none → t.name ∈ n.boundAt p ++ bound

theorem settled_table {t : Table} :
    (Node.table t).Settled bound ↔ (t.schema = none → t.name ∈ bound) := by
  constructor
  · intro h
    exact h [] t rfl
  · intro h p u hu
    cases p with
    | nil =>
        cases hu
        exact h
    | cons i p => cases kind_eq_identifier_of_table rfl hu

/-- A node that is no table is settled if the nodes in its slots are. -/
theorem settled_iff_contents (h : n.kind ≠ .table) :
    n.Settled bound ↔ ∀ m ∈ n.contents, m.Settled (n.bindings ++ bound) := by
  constructor
  · intro hn m hm p t hp ht
    obtain ⟨i, hi⟩ := List.mem_iff_getElem?.mp hm
    have hb := hn (i :: p) t (at?_cons_eq_some.mpr ⟨m, hi, hp⟩) ht
    rwa [boundAt, hi, Option.elim_some, List.append_assoc] at hb
  · intro hc p t hp ht
    cases p with
    | nil =>
        cases hp
        exact absurd rfl h
    | cons i p =>
        obtain ⟨m, hi, hm⟩ := at?_cons_eq_some.mp hp
        rw [boundAt, hi, Option.elim_some, List.append_assoc]
        exact hc m (List.mem_of_getElem? hi) p t hm ht

variable (schema : Identifier)

/-- The pass leaves a settled tree as it is. -/
theorem edit_of_settled (h : n.Settled bound) : n.edit (.qualifying schema) bound = n := by
  induction n using induction_slots generalizing bound with
  | step n ih =>
      by_cases hk : n.kind = .table
      · cases n
        case table t =>
          have ht : ¬ (t.schema = none ∧ t.name ∉ bound) :=
            fun hs => hs.2 (settled_table.mp h hs.1)
          rw [edit, Edit.table_qualifying, if_neg ht]
        all_goals cases hk
      · have hc : ∀ m ∈ n.contents, m.edit (.qualifying schema) (n.bindings ++ bound) = m := by
          intro m hm
          obtain ⟨s, hs, rfl⟩ := List.mem_map.mp hm
          exact ih s hs ((settled_iff_contents hk).mp h s.node hm)
        rw [edit_eq_fill schema hk, List.map_congr_left hc, List.map_id', fill_contents]

/-- What the pass makes of a tree is settled: the names that are bound stay the same. -/
theorem settled_edit (n : Node) (bound : List String) :
    (n.edit (.qualifying schema) bound).Settled bound := by
  induction n using induction_slots generalizing bound with
  | step n ih =>
      by_cases hk : n.kind = .table
      · cases n
        case table t =>
          rw [edit, settled_table, Edit.table_qualifying]
          split
          case isTrue => exact nofun
          case isFalse ht =>
            intro hs
            exact not_not.mp fun hb => ht ⟨hs, hb⟩
        all_goals cases hk
      · have hk' : (n.edit (.qualifying schema) bound).kind ≠ .table := by rwa [kind_edit]
        rw [settled_iff_contents hk', (rebuilt_qualifying schema hk bound).contents,
          bindings_edit_qualifying, List.forall_mem_map]
        intro m hm
        obtain ⟨s, hs, rfl⟩ := List.mem_map.mp hm
        exact ih s hs _

theorem qualify_eq_self_iff (n : Node) : n.qualify schema = .ok n ↔ n.Settled [] := by
  rw [qualify_eq, Except.ok.injEq]
  exact ⟨fun h => h ▸ settled_edit schema n [], edit_of_settled schema⟩

/-- Qualifying tables leaves nothing for a second time, with the same schema or another one. -/
theorem qualify_qualify (later : Identifier) (n : Node) :
    ∃ m, n.qualify schema = .ok m ∧ m.Settled [] ∧ m.qualify later = .ok m := by
  have hm := settled_edit schema n []
  exact ⟨_, qualify_eq schema n, hm, (qualify_eq_self_iff later _).mpr hm⟩

end Node

end SqlTree
