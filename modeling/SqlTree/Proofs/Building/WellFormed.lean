import SqlTree.Proofs.Building.Nodes
import SqlTree.Proofs.Editing.Parts
import SqlTree.Proofs.Editing.Qualify
import SqlTree.Proofs.Emission.Acceptance

/-! # Well-formed trees

What the factories see to at a single node. Only two things can be wrong with the structure of a
tree that is well formed at each of its nodes: an UPDATE has no assignments, or an INSERT has no
source of rows. -/

namespace SqlTree

/-- What the factories and mutators see to at a node. -/
@[simp] def Node.WellFormed : Node → Prop
  | .identifier i => i.name ≠ ""
  | .function name _ => name ≠ ""
  | .reference _ c => c.kind = .column ∨ c.kind = .selectAll
  | .valueList ns | .from ns | .using ns | .returning ns | .output ns | .groupBy ns => ns ≠ []
  | .orderBy is => is ≠ []
  | .with w => w.ctes ≠ []
  | .values rows => rows ≠ []
  | .raw fragments ns => fragments.length = ns.length + 1
  | .unary op _ => op.isUnary = true
  | .onConflict c => c.doNothing = (c.updates.getD []).isEmpty
  | .insert q => ¬ (q.source.isSome = true ∧ q.defaultValues = true)
  | _ => True

/-- A tree is sound if each of its nodes is well formed. -/
def Node.Sound (n : Node) : Prop := ∀ m ∈ n.nodes, m.WellFormed

theorem Node.sound_iff {n : Node} : n.Sound ↔ n.WellFormed ∧ ∀ m ∈ n.children, m.Sound :=
  forall_mem_nodes

theorem Node.Sound.wellFormed {n : Node} (h : n.Sound) : n.WellFormed := (sound_iff.mp h).1

theorem Node.Sound.child {n m : Node} (h : n.Sound) (hm : m ∈ n.children) : m.Sound :=
  (sound_iff.mp h).2 m hm

/-! ## Regular nodes -/

/-- What the factories see to at a node in all: it is well formed, and a conflict is not meant for
an empty list of columns. -/
@[simp] def Node.Regular : Node → Prop
  | .onConflict c => c.doNothing = (c.updates.getD []).isEmpty ∧ c.columns ≠ some []
  | n => n.WellFormed

theorem Node.Regular.wellFormed {n : Node} (h : n.Regular) : n.WellFormed := by
  cases n
  case onConflict => exact h.1
  all_goals exact h

/-- A tree is orderly if each of its nodes is regular. -/
def Node.Orderly (n : Node) : Prop := ∀ m ∈ n.nodes, m.Regular

theorem Node.Orderly.sound {n : Node} (h : n.Orderly) : n.Sound := fun m hm => (h m hm).wellFormed

theorem Node.orderly_iff {n : Node} : n.Orderly ↔ n.Regular ∧ ∀ m ∈ n.children, m.Orderly :=
  forall_mem_nodes

theorem Node.Orderly.regular {n : Node} (h : n.Orderly) : n.Regular := (orderly_iff.mp h).1

theorem Node.Orderly.child {n m : Node} (h : n.Orderly) (hm : m ∈ n.children) : m.Orderly :=
  (orderly_iff.mp h).2 m hm

theorem Node.orderly_identifier {i : Identifier} :
    (Node.identifier i).Orderly ↔ i.name ≠ "" := by
  rw [orderly_iff]
  simp [children, parts]

theorem Node.orderly_column {c : Column} : (Node.column c).Orderly ↔ c.column.name ≠ "" := by
  rw [orderly_iff]
  simp [children, parts, orderly_identifier]

theorem Node.orderly_table {t : Table} :
    (Node.table t).Orderly ↔ (∀ s ∈ t.schema, s.name ≠ "") ∧ t.table.name ≠ "" := by
  rw [orderly_iff]
  simp [children, parts, or_imp, forall_and, orderly_identifier]

/-! ## Qualifying tables -/

theorem Node.wellFormed_qualifying {n : Node} (schema : Identifier) (bound : List String)
    (h : n.WellFormed) : (n.edit (.qualifying schema) bound).WellFormed := by
  cases n
  case reference => simpa [kind_edit] using h
  case onConflict => simpa [OnConflict.edit_eq, getD_map] using h
  case «with» => simpa [With.edit_eq] using h
  case insert q =>
    cases q
    simpa [Insert.edit] using h
  all_goals first | exact h | simpa [Edit.qualifying] using h

theorem Node.regular_qualifying {n : Node} (schema : Identifier) (bound : List String)
    (h : n.Regular) : (n.edit (.qualifying schema) bound).Regular := by
  have hw := wellFormed_qualifying schema bound h.wellFormed
  cases n
  case onConflict c =>
    refine ⟨hw, ?_⟩
    simpa [OnConflict.edit_eq] using h.2
  all_goals exact hw

/-- What holds of each node of a tree and of the schema holds of each node of the qualified
tree. -/
theorem Node.forall_mem_nodes_qualifying {P : Node → Prop} {schema : Identifier}
    (hs : P (.identifier schema))
    (hP : ∀ m bound, P m → P (m.edit (.qualifying schema) bound)) {n : Node}
    (h : ∀ m ∈ n.nodes, P m) (bound : List String) :
    ∀ m ∈ (n.edit (.qualifying schema) bound).nodes, P m := by
  induction n using Node.induction_children generalizing bound with
  | step n ih =>
      rw [forall_mem_nodes] at h ⊢
      refine ⟨hP n bound h.1, ?_⟩
      by_cases hk : n.kind = .table
      · cases n
        case table t =>
          simp only [edit, Edit.qualifying]
          split
          · have hi : ∀ m ∈ (Node.identifier schema).nodes, P m :=
              forall_mem_nodes.mpr ⟨hs, List.forall_mem_nil _⟩
            exact List.forall_mem_cons.mpr ⟨hi, List.forall_mem_singleton.mpr
              (h.2 (.identifier t.table) (by simp [children, parts]))⟩
          · exact h.2
        all_goals cases hk
      · rw [children_edit _ _ hk, List.forall_mem_map]
        exact fun m hm => ih m hm (h.2 m hm) _

theorem Node.sound_qualifying {n : Node} {schema : Identifier} (hs : schema.name ≠ "")
    (h : n.Sound) (bound : List String) : (n.edit (.qualifying schema) bound).Sound :=
  forall_mem_nodes_qualifying (P := WellFormed) hs
    (fun _ bound => wellFormed_qualifying schema bound) h bound

theorem Node.orderly_qualifying {n : Node} {schema : Identifier} (hs : schema.name ≠ "")
    (h : n.Orderly) (bound : List String) : (n.edit (.qualifying schema) bound).Orderly :=
  forall_mem_nodes_qualifying (P := Regular) hs
    (fun _ bound => regular_qualifying schema bound) h bound

/-! ## Errors of well-formed trees -/

/-- Each part of a node is a child of it. -/
theorem Node.parts_subset_children (d : Dialect) (n : Node) : n.parts d ⊆ n.children := by
  have clauses (order : List Clause) (f : Clause → List Node) :
      order.flatMap f ⊆ (Named.all : List Clause).flatMap f := by
    intro m hm
    obtain ⟨c, -, hc⟩ := List.mem_flatMap.mp hm
    exact List.mem_flatMap.mpr ⟨c, c.mem_all, hc⟩
  cases hn : n.kind.hides
  case false => exact parts_eq_children d hn ▸ List.Subset.refl _
  cases n
  case raw fragments ns => exact List.take_subset ..
  case onConflict c => cases hc : c.doNothing <;> simp [parts, children, hc]
  case select q => exact clauses _ q.clauseParts
  case insert q => exact clauses _ q.clauseParts
  case update q => exact clauses _ q.clauseParts
  case delete q => exact clauses _ q.clauseParts
  all_goals cases hn

theorem Node.walk_subset_nodes (d : Dialect) (n : Node) : n.walk d ⊆ n.nodes := by
  induction n using Node.induction_parts d with
  | step n ih =>
      rw [walk_eq, nodes_eq]
      refine List.cons_subset_cons n fun m hm => ?_
      obtain ⟨k, hk, hm⟩ := List.mem_flatMap.mp hm
      exact List.mem_flatMap.mpr ⟨k, parts_subset_children d n hk, ih k hk hm⟩

/-- An UPDATE without assignments. -/
def Node.LacksAssignment (n : Node) : Prop :=
  ∃ q : Update Node, n = .update q ∧ q.assignments.getD [] = []

/-- An INSERT without a source of rows. -/
def Node.LacksRowSource (n : Node) : Prop :=
  ∃ q : Insert Node, n = .insert q ∧ q.source = none ∧ q.defaultValues = false

theorem Node.mem_faults_invalid {d : Dialect} {n : Node} {k : Kind} {f : Fault}
    (hn : n.WellFormed) (h : .invalid k f ∈ n.faults d) :
    k = .updateQuery ∧ f = .noAssignment ∧ n.LacksAssignment ∨
      k = .insertQuery ∧ f = .noRowSource ∧ n.LacksRowSource := by
  have placed {s : StatementKind} {cs : List Clause} :
      ¬ .invalid k f ∈ d.misplaced s cs := by simp [Dialect.misplaced]
  cases n
  case select q => exact absurd h placed
  case delete q => exact absurd h placed
  case insert q =>
    right
    simp only [faults, List.mem_append, placed, or_false] at h
    rcases h with h | h
    · split at h
      · simp_all [LacksRowSource]
      · cases h
    · split at h <;> simp at h
  case update q =>
    left
    simp only [faults, List.mem_append, placed, or_false] at h
    split at h
    · simp_all [LacksAssignment]
    · cases h
  case explain x =>
    rw [faults] at h
    split at h <;> simp at h
  case onConflict c =>
    rw [faults] at h
    split at h
    · rw [WellFormed] at hn
      simp_all
    · cases h
  all_goals cases h

/-- Compiling a sound tree finds no other fault in its structure than a missing assignment or a
missing source of rows. -/
theorem Node.Sound.compile_eq_invalid {d : Dialect} {n : Node} {k : Kind} {f : Fault}
    (h : n.Sound) (he : n.compile d = .error (.invalid k f)) :
    ∃ m ∈ n.walk d, k = .updateQuery ∧ f = .noAssignment ∧ m.LacksAssignment ∨
      k = .insertQuery ∧ f = .noRowSource ∧ m.LacksRowSource := by
  obtain ⟨m, hm, hk | hf⟩ := mem_objections.mp (List.mem_of_mem_head? (compile_eq_error.mp he))
  · rw [Dialect.objection] at hk
    split at hk <;> simp at hk
  · exact ⟨m, hm, mem_faults_invalid (h m (walk_subset_nodes d n hm)) hf⟩

end SqlTree
