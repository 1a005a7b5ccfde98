import SqlTree.Dialect.Engine
import SqlTree.Proofs.Emission.Walk

/-! # The nodes of a tree

All nodes below a node, whether or not a dialect writes them. What a walk leaves out are the
parameters of a raw text behind its last fragment, the updates of a conflict that does nothing and
the clauses without a place in the order of the dialect. -/

namespace SqlTree

/-- The nodes directly below a node. Kinds that are not listed hide nothing: their parts are the
same in all dialects. -/
def Node.children : Node → List Node
  | .raw _ ns => ns
  | .onConflict c =>
    (c.columns.getD []).map .column ++ c.constraint.toList.map .identifier ++
      (c.updates.getD []).map .assignment ++ c.updateWhere.toList.map .where
  | .select q => (Named.all : List Clause).flatMap q.clauseParts
  | .insert q => (Named.all : List Clause).flatMap q.clauseParts
  | .update q => (Named.all : List Clause).flatMap q.clauseParts
  | .delete q => (Named.all : List Clause).flatMap q.clauseParts
  | n => n.parts Engine.postgres.dialect

/-- Kinds of nodes that may have children that are not written. -/
def Kind.hides : Kind → Bool
  | .raw | .onConflict => true
  | k => k.isStatement

theorem Node.parts_eq_children (d : Dialect) {n : Node} (h : n.kind.hides = false) :
    n.parts d = n.children := by
  cases n
  case raw | onConflict | select | insert | update | delete => cases h
  all_goals rfl

theorem Node.sizeOf_children {n m : Node} (h : m ∈ n.children) : sizeOf m < sizeOf n := by
  cases hn : n.kind.hides
  case false => exact sizeOf_parts (parts_eq_children Engine.postgres.dialect hn ▸ h)
  cases n
  case raw fragments ns =>
    have hs : sizeOf m < sizeOf ns := List.sizeOf_lt_of_mem h
    simp
    omega
  case onConflict c =>
    -- A conflict that updates writes all its children.
    have hc : m ∈ (Node.onConflict { c with doNothing := false }).parts
        Engine.postgres.dialect := by
      simpa [parts, children] using h
    have hs := OnConflict.sizeOf_parts hc
    cases c
    simpa using hs
  case select q =>
    obtain ⟨c, -, h⟩ := List.mem_flatMap.mp h
    have hs := Select.sizeOf_clauseParts h
    simp
    omega
  case insert q =>
    obtain ⟨c, -, h⟩ := List.mem_flatMap.mp h
    have hs := Insert.sizeOf_clauseParts h
    simp
    omega
  case update q =>
    obtain ⟨c, -, h⟩ := List.mem_flatMap.mp h
    have hs := Update.sizeOf_clauseParts h
    simp
    omega
  case delete q =>
    obtain ⟨c, -, h⟩ := List.mem_flatMap.mp h
    have hs := Delete.sizeOf_clauseParts h
    simp
    omega
  all_goals cases hn

/-- Induction over a tree by its children. -/
theorem Node.induction_children {P : Node → Prop}
    (step : ∀ n, (∀ m ∈ n.children, P m) → P n) (n : Node) : P n :=
  step n fun m _ => Node.induction_children step m
termination_by sizeOf n
decreasing_by exact Node.sizeOf_children ‹_›

/-- A node and all nodes below it. -/
def Node.nodes (n : Node) : List Node := n :: n.children.attach.flatMap fun m => m.1.nodes
termination_by sizeOf n
decreasing_by exact Node.sizeOf_children m.2

theorem Node.nodes_eq (n : Node) : n.nodes = n :: n.children.flatMap Node.nodes := by
  rw [nodes]
  simp [List.flatMap_subtype]

theorem Node.forall_mem_nodes {P : Node → Prop} {n : Node} :
    (∀ m ∈ n.nodes, P m) ↔ P n ∧ ∀ m ∈ n.children, ∀ k ∈ m.nodes, P k := by
  rw [nodes_eq, List.forall_mem_cons]
  simp only [List.mem_flatMap, forall_exists_index, and_imp]
  exact and_congr_right fun _ => forall_comm.trans (forall_congr' fun m => forall_comm)

theorem Clause.mem_all (c : Clause) : c ∈ (Named.all : List Clause) := by
  cases c <;> decide

end SqlTree
