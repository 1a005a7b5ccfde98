import SqlTree.Proofs.Emission.Leaves

/-! # What a dialect objects to in a tree

The objections to a tree are listed in the order of the walk: at each node its kind, then what is
wrong with the node itself, then its parts. Only a conflict is found to lack an action after its
target is written. The layout of a node refuses exactly when there is something wrong with it. -/

namespace SqlTree

/-! ## Objections -/

/-- A clause, if it is there. -/
def Clause.present {α : Type} (c : Clause) (x : Option α) : List Clause := x.toList.map fun _ => c

/-- The clauses that a SELECT carries, in the order in which they are looked up. -/
def Select.carried (q : Select Node) : List Clause :=
  [.keyword, .selections] ++ Clause.present .explain q.explain ++
    Clause.present .with q.withClause ++ Clause.present .top q.top ++
    Clause.present .from q.fromItems ++ Clause.present .joins q.joins ++
    Clause.present .where q.whereClause ++ Clause.present .groupBy q.groupBy ++
    Clause.present .having q.having ++ Clause.present .orderBy q.orderBy ++
    Clause.present .limit q.limit ++ Clause.present .offset q.offset ++
    Clause.present .endModifiers q.endModifiers

/-- The clauses that an INSERT carries. -/
def Insert.carried (q : Insert Node) : List Clause :=
  [.keyword, .into, .values] ++ Clause.present .explain q.explain ++
    Clause.present .with q.withClause ++ Clause.present .top q.top ++
    Clause.present .columns q.columns ++ Clause.present .onConflict q.onConflict ++
    Clause.present .returning q.returning ++ Clause.present .output q.output ++
    Clause.present .endModifiers q.endModifiers

/-- The clauses that an UPDATE carries. -/
def Update.carried (q : Update Node) : List Clause :=
  [.keyword, .table, .set] ++ Clause.present .explain q.explain ++
    Clause.present .with q.withClause ++ Clause.present .top q.top ++
    Clause.present .from q.fromItems ++ Clause.present .joins q.joins ++
    Clause.present .where q.whereClause ++ Clause.present .returning q.returning ++
    Clause.present .output q.output ++ Clause.present .orderBy q.orderBy ++
    Clause.present .limit q.limit ++ Clause.present .endModifiers q.endModifiers

/-- The clauses that a DELETE carries. -/
def Delete.carried (q : Delete Node) : List Clause :=
  [.keyword, .from] ++ Clause.present .explain q.explain ++
    Clause.present .with q.withClause ++ Clause.present .top q.top ++
    Clause.present .using q.usingItems ++ Clause.present .joins q.joins ++
    Clause.present .where q.whereClause ++ Clause.present .returning q.returning ++
    Clause.present .output q.output ++ Clause.present .orderBy q.orderBy ++
    Clause.present .limit q.limit ++ Clause.present .endModifiers q.endModifiers

/-- An error for each clause without a place in the order of the dialect. -/
def Dialect.misplaced (d : Dialect) (k : StatementKind) (cs : List Clause) : List Error :=
  (cs.filter fun c => !(d.clauseOrder k).contains c).map fun c => .unsupported c.name d.name

/-- What is wrong with a node apart from its kind and its parts. -/
def Node.faults (d : Dialect) : Node → List Error
  | .select q => d.misplaced .select q.carried
  | .insert q =>
    (if q.source.isNone && !q.defaultValues then [.invalid .insertQuery .noRowSource] else []) ++
    (if q.ignore && d.insertIgnore.isNone then [.unsupported "INSERT IGNORE" d.name] else []) ++
    d.misplaced .insert q.carried
  | .update q =>
    (if (q.assignments.getD []).isEmpty then [.invalid .updateQuery .noAssignment] else []) ++
    d.misplaced .update q.carried
  | .delete q => d.misplaced .delete q.carried
  | .explain x =>
    if (x.format.isSome || x.options.isSome) && d.explainSyntax.isNone then
      [.unsupported "EXPLAIN options" d.name]
    else []
  | .onConflict c =>
    if !c.doNothing && (c.updates.getD []).isEmpty then [.invalid .onConflict .noConflictAction]
    else []
  | _ => []

/-- The number of parts that are written before a node itself is looked at. -/
def Node.lead : Node → Nat
  | .onConflict c => (c.columns.getD []).length + c.constraint.toList.length
  | _ => 0

/-- An error if the dialect has no syntax for a kind. -/
def Dialect.objection (d : Dialect) (k : Kind) : List Error :=
  if d.supports k then [] else [.unsupported k.name d.name]

/-- All that a dialect objects to in a tree, in the order of the walk. -/
def Node.objections (d : Dialect) (n : Node) : List Error :=
  let below := (n.parts d).attach.map fun m => m.1.objections d
  d.objection n.kind ++
    ((below.take n.lead).flatten ++ n.faults d ++ (below.drop n.lead).flatten)
termination_by sizeOf n
decreasing_by exact Node.sizeOf_parts m.2

theorem Node.objections_eq (d : Dialect) (n : Node) :
    n.objections d = d.objection n.kind ++
      (((n.parts d).take n.lead).flatMap (Node.objections d) ++ n.faults d ++
        ((n.parts d).drop n.lead).flatMap (Node.objections d)) := by
  rw [objections]
  simp [List.flatMap, List.map_take, List.map_drop]

/-- The objections to a tree are those to the kinds and the faults of the nodes of the walk. -/
theorem Node.mem_objections {d : Dialect} {n : Node} {e : Error} :
    e ∈ n.objections d ↔ ∃ m ∈ n.walk d, e ∈ d.objection m.kind ∨ e ∈ m.faults d := by
  induction n using Node.induction_parts d with
  | step n ih =>
      have hs : ((n.parts d).take n.lead).flatMap (Node.objections d) ++
          ((n.parts d).drop n.lead).flatMap (Node.objections d) =
            (n.parts d).flatMap (Node.objections d) := by
        rw [← List.flatMap_append, List.take_append_drop]
      have hp : e ∈ (n.parts d).flatMap (Node.objections d) ↔
          ∃ m ∈ (n.parts d).flatMap (Node.walk d), e ∈ d.objection m.kind ∨ e ∈ m.faults d := by
        simp only [List.mem_flatMap]
        constructor
        · rintro ⟨m, hm, he⟩
          obtain ⟨k, hk, hf⟩ := (ih m hm).mp he
          exact ⟨k, ⟨m, hm, hk⟩, hf⟩
        · rintro ⟨k, ⟨m, hm, hk⟩, hf⟩
          exact ⟨m, hm, (ih m hm).mpr ⟨k, hk, hf⟩⟩
      rw [objections_eq, walk_eq, List.exists_mem_cons_iff, ← hp, ← hs]
      simp only [List.mem_append]
      tauto

theorem Dialect.objection_eq_nil {d : Dialect} {k : Kind} :
    d.objection k = [] ↔ d.supports k = true := by
  rw [objection]
  split <;> simp_all

/-- There is nothing to object to in a tree if there is nothing wrong with any node of the walk. -/
theorem Node.objections_eq_nil {d : Dialect} {n : Node} :
    n.objections d = [] ↔ ∀ m ∈ n.walk d, d.supports m.kind = true ∧ m.faults d = [] := by
  simp only [List.eq_nil_iff_forall_not_mem, mem_objections, ← Dialect.objection_eq_nil,
    not_exists, not_and, not_or]
  exact ⟨fun h m hm => ⟨fun e => (h e m hm).1, fun e => (h e m hm).2⟩,
    fun h e m hm => ⟨(h m hm).1 e, (h m hm).2 e⟩⟩

/-! ## Refusals of a layout -/

namespace Item

@[simp] theorem isRefusal_text (s : String) : (text s).isRefusal = false := rfl

@[simp] theorem isRefusal_piece (p : Piece) : (piece p).isRefusal = false := rfl

@[simp] theorem isRefusal_part (n : Node) : (part n).isRefusal = false := rfl

@[simp] theorem any_isRefusal_separated (s : String) (ns : List Node) :
    (separated s ns).any isRefusal = false := by
  induction ns with
  | nil => rfl
  | cons n ns ih =>
      cases ns with
      | nil => rfl
      | cons m ms =>
          rw [separated, List.map_cons, List.map_cons, List.intersperse_cons_cons]
          simpa [separated] using ih

@[simp] theorem any_isRefusal_listed (k : String) (ns : List Node) :
    (listed k ns).any isRefusal = false := by
  simp [listed, -List.any_eq_false]

@[simp] theorem any_isRefusal_tuple (ns : List Node) : (tuple ns).any isRefusal = false := by
  simp [tuple, -List.any_eq_false]

@[simp] theorem any_isRefusal_grouped (w : Bool) (n : Node) :
    (grouped w n).any isRefusal = false := by
  cases w <;> rfl

@[simp] theorem any_isRefusal_interleaved (fs : List String) (ns : List Node) :
    (interleaved fs ns).any isRefusal = false := by
  fun_induction interleaved with
  | case1 => rfl
  | case2 f fs ih => exact ih
  | case3 f fs n ns ih => exact ih

end Item

namespace Layout

theorem map_fst_clause (c : Clause) (is : Option (List Item)) :
    (clause c is).map (·.1) = Clause.present c is := by
  cases is <;> rfl

theorem map_fst_single (c : Clause) (n : Option Node) :
    (single c n).map (·.1) = Clause.present c n := by
  cases n <;> rfl

theorem present_map {α β : Type} (c : Clause) (f : α → β) (x : Option α) :
    Clause.present c (x.map f) = Clause.present c x := by
  cases x <;> rfl

/-- The layout of a statement refuses the first of its clauses that has no place. -/
theorem all_statement {d : Dialect} {k : StatementKind} {cs : List (Clause × List Item)}
    {e : Error} (h : (d.misplaced k (cs.map (·.1))).head? = some e) :
    (statement d k cs).all = [.refuse e] := by
  rw [Dialect.misplaced, List.head?_map, List.head?_filter, List.find?_map, Option.map_map,
    Option.map_eq_some_iff] at h
  obtain ⟨c, hc, rfl⟩ := h
  rw [statement, show cs.find? (fun c => !(d.clauseOrder k).contains c.1) = some c from hc]
  rfl

theorem not_refuses_statement {d : Dialect} {k : StatementKind} {cs : List (Clause × List Item)}
    (hc : Each (·.any Item.isRefusal = false) cs) (h : d.misplaced k (cs.map (·.1)) = []) :
    (statement d k cs).refuses = false := by
  have hf : cs.find? (fun c => !(d.clauseOrder k).contains c.1) = none := by
    rw [List.find?_eq_none]
    simpa [Dialect.misplaced] using h
  rw [statement, hf, refuses, all, List.flatMap_map, List.any_flatMap, List.any_eq_false]
  intro c _
  cases hl : cs.lookup c with
  | none => simp
  | some is =>
      obtain ⟨ys, zs, rfl, -⟩ := List.lookup_eq_some_iff.mp hl
      simpa [hl] using hc (c, is) (by simp)

end Layout

open Item Layout

theorem Select.map_fst_layout (q : Select Node) : q.layout.map (·.1) = q.carried := by
  simp [layout, carried, map_fst_clause, map_fst_single, present_map]

theorem Insert.map_fst_layout (q : Insert Node) (keyword : String) :
    (q.layout keyword).map (·.1) = q.carried := by
  simp [layout, carried, map_fst_clause, map_fst_single, present_map]

theorem Update.map_fst_layout (q : Update Node) (as : List (Assignment Node)) :
    (q.layout as).map (·.1) = q.carried := by
  simp [layout, carried, map_fst_clause, map_fst_single, present_map]

theorem Delete.map_fst_layout (q : Delete Node) : q.layout.map (·.1) = q.carried := by
  simp [layout, carried, map_fst_clause, map_fst_single, present_map]

theorem Select.not_isRefusal_layout (q : Select Node) :
    Each (·.any isRefusal = false) q.layout := by
  rcases h : q.selections with _ | _ | ⟨n, ns⟩
  all_goals simp [layout, h, -List.any_eq_false]

theorem Insert.not_isRefusal_layout (q : Insert Node) (keyword : String) :
    Each (·.any isRefusal = false) (q.layout keyword) := by
  cases h : q.source
  all_goals
    simp [layout, h, -List.any_eq_false]
    intro cs _
    split <;> simp [-List.any_eq_false]

theorem Update.not_isRefusal_layout (q : Update Node) (as : List (Assignment Node)) :
    Each (·.any isRefusal = false) (q.layout as) := by
  simp [layout, -List.any_eq_false]

theorem Delete.not_isRefusal_layout (q : Delete Node) :
    Each (·.any isRefusal = false) q.layout := by
  simp [layout, -List.any_eq_false]

/-- A node with nothing wrong with it refuses nothing. -/
theorem Node.not_refuses_layout {d : Dialect} {n : Node} (h : n.faults d = []) :
    (n.layout d).refuses = false := by
  cases n
  case select q =>
    exact not_refuses_statement q.not_isRefusal_layout (by rwa [q.map_fst_layout])
  case delete q =>
    exact not_refuses_statement q.not_isRefusal_layout (by rwa [q.map_fst_layout])
  case insert q =>
    simp only [faults, List.append_eq_nil_iff] at h
    obtain ⟨⟨hs, hi⟩, hm⟩ := h
    rw [layout]
    split
    · simp_all
    · split
      · rename_i hk
        split at hk <;> simp_all
      · exact not_refuses_statement (q.not_isRefusal_layout _) (by rwa [q.map_fst_layout])
  case update q =>
    rw [faults, List.append_eq_nil_iff] at h
    rw [layout]
    split
    · simp_all
    · simp_all
    · exact not_refuses_statement (q.not_isRefusal_layout _) (by rw [q.map_fst_layout, h.2])
  case explain x =>
    obtain ⟨format, options⟩ := x
    cases format <;> cases options <;> cases hx : d.explainSyntax <;>
      simp_all [faults, layout, Explain.layout, refuses, all]
  case onConflict c =>
    obtain ⟨columns, constraint, doNothing, updates, updateWhere⟩ := c
    cases columns <;> cases constraint <;> cases doNothing <;>
      rcases updates with _ | _ | ⟨u, us⟩ <;> cases updateWhere <;>
      simp_all [faults, OnConflict.layout, layout, refuses, all, -List.any_eq_false]
  -- No other layout refuses.
  all_goals simp [layout, refuses, all, -List.any_eq_false]
  case table t => cases t.schema <;> simp
  case reference t c => cases t <;> simp
  case unary op n => split <;> simp [-List.any_eq_false]
  case join j => cases j.condition <;> simp
  case orderByItem i => cases i.direction <;> simp
  case top t => cases t.modifier <;> simp
  case cteName n => cases n.columns <;> simp [-List.any_eq_false]

/-- A node with something wrong with it refuses the first such thing, behind the parts that are
written before it is looked at. -/
theorem Node.refuses_layout {d : Dialect} {n : Node} {e : Error}
    (h : (n.faults d).head? = some e) :
    ∃ is, (n.layout d).all = is ++ [.refuse e] ∧ is.any isRefusal = false ∧
      Item.parts is = (n.parts d).take n.lead := by
  cases n
  case select q => exact ⟨[], all_statement (by rwa [q.map_fst_layout]), rfl, rfl⟩
  case delete q => exact ⟨[], all_statement (by rwa [q.map_fst_layout]), rfl, rfl⟩
  case insert q =>
    refine ⟨[], ?_, rfl, rfl⟩
    rw [faults] at h
    rw [layout]
    split
    · rename_i hs
      rw [if_pos hs] at h
      cases h
      rfl
    · rename_i hs
      rw [if_neg hs, List.nil_append] at h
      split
      · rename_i hk
        have hi : q.ignore = true ∧ d.insertIgnore = none := by split at hk <;> simp_all
        simp only [hi] at h
        cases h
        rfl
      · rename_i hk
        have hi : ¬ (q.ignore && d.insertIgnore.isNone) = true := by split at hk <;> simp_all
        rw [if_neg hi, List.nil_append] at h
        exact all_statement (by rwa [q.map_fst_layout])
  case update q =>
    refine ⟨[], ?_, rfl, rfl⟩
    rw [faults] at h
    rw [layout]
    rcases hs : q.assignments with _ | _ | ⟨a, as⟩
    case none | nil =>
      rw [hs] at h
      cases h
      rfl
    rw [hs] at h
    exact all_statement (by rwa [q.map_fst_layout])
  case explain x =>
    obtain ⟨format, options⟩ := x
    cases format <;> cases options <;> cases hx : d.explainSyntax <;>
      simp_all [faults, layout, Explain.layout, all, lead]
  case onConflict c =>
    obtain ⟨columns, constraint, doNothing, updates, updateWhere⟩ := c
    cases doNothing
    case true => simp [faults] at h
    rcases updates with _ | _ | ⟨u, us⟩
    case cons => simp [faults] at h
    all_goals
      cases h
      rw [layout, all, OnConflict.layout, if_neg Bool.false_ne_true, ← List.cons_append]
      refine ⟨_, rfl, ?_, ?_⟩
      · cases columns <;> cases constraint <;> simp [-List.any_eq_false]
      · rw [parts, List.take_left' (by simp [lead])]
        cases columns <;> cases constraint <;> simp
  all_goals cases h

end SqlTree
