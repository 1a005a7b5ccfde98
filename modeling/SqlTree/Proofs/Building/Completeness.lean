import SqlTree.Dialect.Profile
import SqlTree.Proofs.Building.Built

/-! # Completeness

A built tree that compiles is written as a whole: its nodes are those of the walk and those under
a condition that was given to a conflict that does nothing. -/

namespace SqlTree

open List

/-! ## What is not written -/

/-- The children that a node is written without. A conflict that does nothing does not say under
which condition it would update. -/
def Node.dropped : Node → List Node
  | .onConflict c => if c.doNothing then c.updateWhere.toList.map .where else []
  | _ => []

theorem Node.dropped_eq_nil {n : Node} (h : n.kind ≠ .onConflict) : n.dropped = [] := by
  cases n
  case onConflict => exact absurd rfl h
  all_goals rfl

/-- All nodes below a node of the walk that it is written without. -/
def Node.unwritten (d : Dialect) (n : Node) : List Node :=
  (n.walk d).flatMap fun m => m.dropped.flatMap nodes

theorem Node.unwritten_eq (d : Dialect) (n : Node) :
    n.unwritten d = n.dropped.flatMap nodes ++ (n.parts d).flatMap (unwritten d) := by
  rw [unwritten, walk_eq, flatMap_cons, flatMap_assoc]
  rfl

/-! ## Clauses -/

/-- The dialects of the engines and those of the profiles. -/
inductive Dialect.Provided : Dialect → Prop
  | engine (e : Engine) : Provided e.dialect
  | profile (p : Profile) : Provided p.dialect

theorem Engine.nodup_clauseOrder (e : Engine) (k : StatementKind) :
    (e.dialect.clauseOrder k).Nodup := by
  cases e <;> cases k <;> decide

theorem Dialect.Provided.nodup_clauseOrder {d : Dialect} (h : d.Provided) (k : StatementKind) :
    (d.clauseOrder k).Nodup := by
  cases h with
  | engine e => exact e.nodup_clauseOrder k
  | profile p => exact p.base.nodup_clauseOrder k

/-- An order of clauses that has no clause twice and lacks none that is written writes all of a
statement. -/
theorem Clause.perm_flatMap {order : List Clause} {f : Clause → List Node} (ho : order.Nodup)
    (hf : ∀ c ∉ order, f c = []) :
    (Named.all : List Clause).flatMap f ~ order.flatMap f := by
  have hall : (Named.all : List Clause).Nodup := by decide
  have hin : (Named.all : List Clause).filter (· ∈ order) ~ order := by
    rw [perm_ext_iff_of_nodup (hall.filter _) ho]
    simp [mem_all]
  have hout : ((Named.all : List Clause).filter fun c => !decide (c ∈ order)).flatMap f = [] := by
    rw [flatMap_eq_nil_iff]
    intro c hc
    exact hf c (by simpa [mem_all] using hc)
  calc (Named.all : List Clause).flatMap f
    _ ~ ((Named.all : List Clause).filter (· ∈ order) ++
          (Named.all : List Clause).filter fun c => !decide (c ∈ order)).flatMap f :=
        (filter_append_perm (fun c => decide (c ∈ order)) _).symm.flatMap_right f
    _ = ((Named.all : List Clause).filter (· ∈ order)).flatMap f := by
        rw [flatMap_append, hout, append_nil]
    _ ~ order.flatMap f := hin.flatMap_right f

theorem Dialect.misplaced_eq_nil {d : Dialect} {k : StatementKind} {cs : List Clause} :
    d.misplaced k cs = [] ↔ cs ⊆ d.clauseOrder k := by
  simp [misplaced, List.subset_def]

/-- A dialect writes all clauses of a statement if none that it carries is without a place. -/
theorem Dialect.perm_flatMap (d : Dialect) {k : StatementKind} {cs : List Clause}
    {f : Clause → List Node} (ho : (d.clauseOrder k).Nodup) (hm : d.misplaced k cs = [])
    (hf : ∀ c ∉ cs, f c = []) :
    (Named.all : List Clause).flatMap f ~ (d.clauseOrder k).flatMap f :=
  Clause.perm_flatMap ho fun c hc => hf c fun h => hc (misplaced_eq_nil.mp hm h)

theorem Clause.mem_present {α : Type} {c k : Clause} {x : Option α} :
    k ∈ present c x ↔ k = c ∧ x ≠ none := by
  cases x <;> simp [present]

theorem Select.clauseParts_eq_nil (q : Select Node) {c : Clause} (h : c ∉ q.carried) :
    q.clauseParts c = [] := by
  cases c <;> simp_all [carried, Clause.mem_present, clauseParts]

theorem Insert.clauseParts_eq_nil (q : Insert Node) {c : Clause} (h : c ∉ q.carried) :
    q.clauseParts c = [] := by
  cases c <;> simp_all [carried, Clause.mem_present, clauseParts]

theorem Update.clauseParts_eq_nil (q : Update Node) {c : Clause} (h : c ∉ q.carried) :
    q.clauseParts c = [] := by
  cases c <;> simp_all [carried, Clause.mem_present, clauseParts]

theorem Delete.clauseParts_eq_nil (q : Delete Node) {c : Clause} (h : c ∉ q.carried) :
    q.clauseParts c = [] := by
  cases c <;> simp_all [carried, Clause.mem_present, clauseParts]

/-! ## All nodes -/

namespace Node

variable {d : Dialect} {n : Node}

/-- The children of a node with nothing wrong with it are its parts and what it drops. -/
theorem children_perm (ho : ∀ k, (d.clauseOrder k).Nodup) (hw : n.WellFormed)
    (hf : n.faults d = []) : n.children ~ n.parts d ++ n.dropped := by
  -- Only a conflict drops anything.
  by_cases hk : n.kind = .onConflict
  · cases n
    case onConflict c =>
      rw [WellFormed] at hw
      cases hc : c.doNothing
      case false => simp [children, parts, dropped, hc]
      case true =>
        rw [hc, eq_comm, List.isEmpty_iff] at hw
        simp [children, parts, dropped, hc, hw]
    all_goals cases hk
  rw [dropped_eq_nil hk, append_nil]
  cases hn : n.kind.hides
  case false => rw [parts_eq_children d hn]
  cases n
  case raw fragments ns =>
    rw [WellFormed] at hw
    rw [parts, take_of_length_le (by omega), children]
  case select q => exact d.perm_flatMap (ho .select) hf fun _ => q.clauseParts_eq_nil
  case delete q => exact d.perm_flatMap (ho .delete) hf fun _ => q.clauseParts_eq_nil
  case insert q =>
    exact d.perm_flatMap (ho .insert) (append_eq_nil_iff.mp hf).2 fun _ => q.clauseParts_eq_nil
  case update q =>
    exact d.perm_flatMap (ho .update) (append_eq_nil_iff.mp hf).2 fun _ => q.clauseParts_eq_nil
  case onConflict => exact absurd rfl hk
  all_goals cases hn

/-- Every node of a sound tree with nothing wrong with it is written or dropped, as often as it
occurs. -/
theorem nodes_perm (ho : ∀ k, (d.clauseOrder k).Nodup) (hs : n.Sound)
    (hf : ∀ m ∈ n.walk d, m.faults d = []) : n.nodes ~ n.walk d ++ n.unwritten d := by
  induction n using Node.induction_parts d with
  | step n ih =>
      have hc := children_perm ho hs.wellFormed (hf n (mem_walk_self d n))
      have hp : ∀ m ∈ n.parts d, m.nodes ~ m.walk d ++ m.unwritten d := by
        intro m hm
        refine ih m hm (hs.child (parts_subset_children d n hm)) fun k hk => hf k ?_
        rw [walk_eq]
        exact mem_cons_of_mem n (mem_flatMap.mpr ⟨m, hm, hk⟩)
      rw [nodes_eq, walk_eq, unwritten_eq, cons_append]
      refine Perm.cons n ?_
      -- The dropped children of the node itself come after the walk below its parts.
      calc n.children.flatMap nodes
        _ ~ (n.parts d ++ n.dropped).flatMap nodes := hc.flatMap_right _
        _ = (n.parts d).flatMap nodes ++ n.dropped.flatMap nodes := flatMap_append
        _ ~ (n.parts d).flatMap (fun m => m.walk d ++ m.unwritten d) ++ n.dropped.flatMap nodes :=
            (Perm.flatMap_left _ hp).append_right _
        _ ~ (n.parts d).flatMap (walk d) ++ (n.parts d).flatMap (unwritten d) ++
              n.dropped.flatMap nodes :=
            (flatMap_append_perm ..).symm.append_right _
        _ ~ (n.parts d).flatMap (walk d) ++ (n.dropped.flatMap nodes ++
              (n.parts d).flatMap (unwritten d)) := by
            rw [append_assoc]
            exact perm_append_comm.append_left _

/-! ## All values -/

/-- The values that are bound anywhere in a tree. -/
def givenValues (n : Node) : List Value := n.nodes.filterMap bound?

/-- A built tree that compiles is written as a whole but for what is under the condition of a
conflict that does nothing: its parameters are the other values that are bound in it, each as often
as it occurs. -/
theorem Built.givenValues_perm {c : Compiled} (h : n.Built) (hd : d.Provided)
    (hc : n.compile d = .ok c) :
    n.nodes ~ n.walk d ++ n.unwritten d ∧
    n.givenValues ~ c.parameters ++ (n.unwritten d).filterMap bound? ∧
    ((∀ k : OnConflict Node, .onConflict k ∈ n.nodes → k.doNothing = true →
      k.updateWhere = none) → c.parameters ~ n.givenValues) := by
  have hf : ∀ m ∈ n.walk d, m.faults d = [] := fun m hm =>
    (exists_compile_eq_ok.mp ⟨c, hc⟩ m hm).2
  have hn := nodes_perm hd.nodup_clauseOrder h.sound hf
  have hv : n.givenValues ~ c.parameters ++ (n.unwritten d).filterMap bound? := by
    rw [parameters_eq hc, boundValues, ← filterMap_append]
    exact hn.filterMap bound?
  refine ⟨hn, hv, fun hu => ?_⟩
  have hl : n.unwritten d = [] := by
    refine flatMap_eq_nil_iff.mpr fun m hm => ?_
    cases m
    case onConflict k =>
      cases hk : k.doNothing
      case false => simp [dropped, hk]
      case true => simp [dropped, hu k (walk_subset_nodes d n hm) hk]
    all_goals rfl
  rw [hl, filterMap_nil, append_nil] at hv
  exact hv.symm

/-- An INSERT with a condition under which a row in conflict is updated. -/
def conflictSample (c : OnConflict Node) : Node :=
  .insert
    { into := ⟨none, ⟨"t"⟩⟩
      defaultValues := true
      onConflict := some
        (c.withCondition (.binary (.column ⟨⟨"a"⟩⟩) .eq (.value (.int 1) false))) }

/-- An update of a row in conflict. -/
def replacingSample : OnConflict Node :=
  { columns := some [⟨⟨"id"⟩⟩]
    doNothing := false
    updates := some [⟨⟨⟨"b"⟩⟩, .value (.int 2) false⟩] }

theorem built_conflictSample {c : OnConflict Node} (hc : (Node.onConflict c).Built) :
    (conflictSample c).Built := by
  have hp : (Node.binary (.column ⟨⟨"a"⟩⟩) .eq (.value (.int 1) false)).Built :=
    .binary (.column (s := "a") rfl) .eq (.value (.int 1) false)
  have hi : (Node.insert { into := ⟨none, ⟨"t"⟩⟩, defaultValues := true }).Built :=
    .insertCall .setDefaults (.insert (.table (s := "t") rfl) (w := none) nofun) nofun rfl
  exact .insertCall (.putOnConflict _) hi (forall_mem_singleton.mpr (.withCondition hc hp)) rfl

theorem built_replacingSample : (Node.onConflict replacingSample).Built := by
  have ha : (Node.assignment ⟨⟨⟨"b"⟩⟩, .value (.int 2) false⟩).Built :=
    .assignment (.column (s := "b") rfl) (.value (.int 2) false)
  exact .updating (forall_mem_singleton.mpr (.column (s := "id") rfl))
    (forall_mem_singleton.mpr ha) rfl

theorem Built.givenValues_perm_replacingSample :
    (conflictSample replacingSample).Built ∧ Engine.postgres.dialect.Provided ∧
    (∀ k : OnConflict Node, .onConflict k ∈ (conflictSample replacingSample).nodes →
      k.doNothing = true → k.updateWhere = none) ∧
    (conflictSample replacingSample).compile Engine.postgres.dialect = .ok
      ⟨"INSERT INTO \"t\" DEFAULT VALUES ON CONFLICT (\"id\") DO UPDATE SET \"b\" = $1" ++
        " WHERE \"a\" = $2", [.int 2, .int 1]⟩ ∧
    [.int 2, .int 1] ~ (conflictSample replacingSample).givenValues := by
  have hb := built_conflictSample built_replacingSample
  have hu : ∀ k : OnConflict Node, .onConflict k ∈ (conflictSample replacingSample).nodes →
      k.doNothing = true → k.updateWhere = none := by
    simp [conflictSample, replacingSample, OnConflict.withCondition, Connective.mergeOpt, nodes_eq,
      children, parts, Named.all, Insert.clauseParts]
  have hc : (conflictSample replacingSample).compile Engine.postgres.dialect = .ok
      ⟨"INSERT INTO \"t\" DEFAULT VALUES ON CONFLICT (\"id\") DO UPDATE SET \"b\" = $1" ++
        " WHERE \"a\" = $2", [.int 2, .int 1]⟩ := by cbv
  exact ⟨hb, .engine .postgres, hu, hc, (givenValues_perm hb (.engine .postgres) hc).2.2 hu⟩

/-- The condition under which a conflict that does nothing would update is lost with its values. -/
theorem not_givenValues_perm_ignoring :
    (conflictSample (.ignoring [⟨⟨"id"⟩⟩])).Built ∧ Engine.postgres.dialect.Provided ∧
    (conflictSample (.ignoring [⟨⟨"id"⟩⟩])).compile Engine.postgres.dialect = .ok
      ⟨"INSERT INTO \"t\" DEFAULT VALUES ON CONFLICT (\"id\") DO NOTHING", []⟩ ∧
    ¬ [] ~ (conflictSample (.ignoring [⟨⟨"id"⟩⟩])).givenValues := by
  refine ⟨built_conflictSample (.ignoring (forall_mem_singleton.mpr (.column (s := "id") rfl))),
    .engine .postgres, by cbv, fun h => ?_⟩
  have hv : .value (.int 1) false ∈ (conflictSample (.ignoring [⟨⟨"id"⟩⟩])).nodes := by
    simp [conflictSample, OnConflict.ignoring, OnConflict.target, OnConflict.withCondition,
      Connective.mergeOpt, nodes_eq, children, parts, Named.all, Insert.clauseParts]
  exact not_mem_nil (h.mem_iff.mpr (mem_filterMap.mpr ⟨_, hv, rfl⟩))

end Node

end SqlTree
