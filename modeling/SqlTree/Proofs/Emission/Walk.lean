import SqlTree.Dialect
import SqlTree.Node
import SqlTree.Proofs.Lists

/-! # The walk over a tree in the order of emission

Every node that is written stands directly below another one, its parts in the order in which
they are written. The table of parts says nothing about text. -/

namespace SqlTree

/-! ## Parts of a statement -/

/-- The nodes that a clause of a SELECT is written with. -/
def Select.clauseParts (q : Select Node) : Clause → List Node
  | .explain => q.explain.toList.map .explain
  | .with => q.withClause.toList.map .with
  | .top => q.top.toList.map .top
  | .selections => (q.selections.getD []).map .selection
  | .from => q.fromItems.toList.map .from
  | .joins => (q.joins.getD []).map .join
  | .where => q.whereClause.toList.map .where
  | .groupBy => q.groupBy.toList.map .groupBy
  | .having => q.having.toList.map .having
  | .orderBy => q.orderBy.toList.map .orderBy
  | .limit => q.limit.toList.map .limit
  | .offset => q.offset.toList.map .offset
  | .endModifiers => q.endModifiers.getD []
  | _ => []

/-- The nodes that a clause of an INSERT is written with. -/
def Insert.clauseParts (q : Insert Node) : Clause → List Node
  | .explain => q.explain.toList.map .explain
  | .with => q.withClause.toList.map .with
  | .top => q.top.toList.map .top
  | .into => [.table q.into]
  | .columns => (q.columns.getD []).map .column
  | .values => q.source.toList
  | .onConflict => q.onConflict.toList.map .onConflict
  | .returning => q.returning.toList.map .returning
  | .output => q.output.toList.map .output
  | .endModifiers => q.endModifiers.getD []
  | _ => []

/-- The nodes that a clause of an UPDATE is written with. -/
def Update.clauseParts (q : Update Node) : Clause → List Node
  | .explain => q.explain.toList.map .explain
  | .with => q.withClause.toList.map .with
  | .top => q.top.toList.map .top
  | .table => [q.table]
  | .set => (q.assignments.getD []).map .assignment
  | .from => q.fromItems.toList.map .from
  | .joins => (q.joins.getD []).map .join
  | .where => q.whereClause.toList.map .where
  | .returning => q.returning.toList.map .returning
  | .output => q.output.toList.map .output
  | .orderBy => q.orderBy.toList.map .orderBy
  | .limit => q.limit.toList.map .limit
  | .endModifiers => q.endModifiers.getD []
  | _ => []

/-- The nodes that a clause of a DELETE is written with. -/
def Delete.clauseParts (q : Delete Node) : Clause → List Node
  | .explain => q.explain.toList.map .explain
  | .with => q.withClause.toList.map .with
  | .top => q.top.toList.map .top
  | .from => [.from q.fromItems]
  | .using => q.usingItems.toList.map .using
  | .joins => (q.joins.getD []).map .join
  | .where => q.whereClause.toList.map .where
  | .returning => q.returning.toList.map .returning
  | .output => q.output.toList.map .output
  | .orderBy => q.orderBy.toList.map .orderBy
  | .limit => q.limit.toList.map .limit
  | .endModifiers => q.endModifiers.getD []
  | _ => []

/-! ## Parts of a node -/

/-- The nodes directly below a node that are written, in the order in which they are written.
A statement follows the clause order of the dialect, a raw text gives a parameter to each
fragment while there are some, and doing nothing on a conflict leaves the updates out. -/
def Node.parts (d : Dialect) : Node → List Node
  | .identifier _ | .selectAll | .value .. | .operator _ | .top _ | .modifier _ => []
  | .table t => t.schema.toList.map .identifier ++ [.identifier t.table]
  | .column c => [.identifier c.column]
  | .reference t c => t.toList.map .table ++ [c]
  | .alias n i => [n, .identifier i]
  | .valueList ns | .function _ ns | .from ns | .using ns | .output ns | .groupBy ns => ns
  | .raw fragments ns => ns.take fragments.length
  | .binary l op r => [l, .operator op, r]
  | .unary op n => [.operator op, n]
  | .and l r | .or l r => [l, r]
  | .parens n | .on n | .where n | .selection n | .having n | .limit n | .offset n => [n]
  | .join j => j.table :: j.condition.toList.map .on
  | .returning ns => ns.map .selection
  | .orderBy is => is.map .orderByItem
  | .orderByItem i => [i.expr]
  | .explain e => e.options.toList
  | .with w => w.ctes.map .cte
  | .cte c => [.cteName c.name, c.body]
  | .cteName n => .identifier n.table :: (n.columns.getD []).map .column
  | .assignment a => [.column a.column, a.value]
  | .values rows => rows.map .valueList
  | .onConflict c =>
    (c.columns.getD []).map .column ++ c.constraint.toList.map .identifier ++
      if c.doNothing then []
      else (c.updates.getD []).map .assignment ++ c.updateWhere.toList.map .where
  | .select q => (d.clauseOrder .select).flatMap q.clauseParts
  | .insert q => (d.clauseOrder .insert).flatMap q.clauseParts
  | .update q => (d.clauseOrder .update).flatMap q.clauseParts
  | .delete q => (d.clauseOrder .delete).flatMap q.clauseParts

/-! ## Parts are smaller than the node -/

theorem Select.sizeOf_clauseParts {q : Select Node} {c : Clause} {m : Node}
    (h : m ∈ q.clauseParts c) : sizeOf m ≤ sizeOf q := by
  obtain ⟨fromItems, selections, distinct, joins, whereClause, groupBy, having, orderBy, limit,
    offset, withClause, explain, top, endModifiers⟩ := q
  cases c <;> simp only [clauseParts, List.mem_map, Option.mem_toList, List.not_mem_nil] at h
  case selections | joins =>
    obtain ⟨a, ha, rfl⟩ := h
    have hs := sizeOf_lt_of_mem_getD ha
    simp
    omega
  case endModifiers =>
    have hs := sizeOf_lt_of_mem_getD h
    simp
    omega
  all_goals
    obtain ⟨a, rfl, rfl⟩ := h
    simp
    omega

theorem Insert.sizeOf_clauseParts {q : Insert Node} {c : Clause} {m : Node}
    (h : m ∈ q.clauseParts c) : sizeOf m ≤ sizeOf q := by
  obtain ⟨into, columns, source, defaultValues, ignore, onConflict, returning, output, withClause,
    explain, top, endModifiers⟩ := q
  cases c <;> simp only [clauseParts, List.mem_map, Option.mem_toList, List.mem_singleton,
    List.not_mem_nil] at h
  case into =>
    subst h
    simp
    omega
  case columns =>
    obtain ⟨a, ha, rfl⟩ := h
    have hs := sizeOf_lt_of_mem_getD ha
    simp
    omega
  case values =>
    subst h
    simp
    omega
  case endModifiers =>
    have hs := sizeOf_lt_of_mem_getD h
    simp
    omega
  all_goals
    obtain ⟨a, rfl, rfl⟩ := h
    simp
    omega

theorem Update.sizeOf_clauseParts {q : Update Node} {c : Clause} {m : Node}
    (h : m ∈ q.clauseParts c) : sizeOf m ≤ sizeOf q := by
  obtain ⟨table, assignments, fromItems, joins, whereClause, returning, output, withClause, orderBy,
    limit, top, explain, endModifiers⟩ := q
  cases c <;> simp only [clauseParts, List.mem_map, Option.mem_toList, List.mem_singleton,
    List.not_mem_nil] at h
  case table =>
    subst h
    simp
    omega
  case set | joins =>
    obtain ⟨a, ha, rfl⟩ := h
    have hs := sizeOf_lt_of_mem_getD ha
    simp
    omega
  case endModifiers =>
    have hs := sizeOf_lt_of_mem_getD h
    simp
    omega
  all_goals
    obtain ⟨a, rfl, rfl⟩ := h
    simp
    omega

theorem Delete.sizeOf_clauseParts {q : Delete Node} {c : Clause} {m : Node}
    (h : m ∈ q.clauseParts c) : sizeOf m ≤ sizeOf q := by
  obtain ⟨fromItems, usingItems, joins, whereClause, returning, withClause, orderBy, limit, explain,
    endModifiers, top, output⟩ := q
  cases c <;> simp only [clauseParts, List.mem_map, Option.mem_toList, List.mem_singleton,
    List.not_mem_nil] at h
  case «from» =>
    subst h
    simp
    omega
  case joins =>
    obtain ⟨a, ha, rfl⟩ := h
    have hs := sizeOf_lt_of_mem_getD ha
    simp
    omega
  case endModifiers =>
    have hs := sizeOf_lt_of_mem_getD h
    simp
    omega
  all_goals
    obtain ⟨a, rfl, rfl⟩ := h
    simp <;> omega

theorem OnConflict.sizeOf_parts {c : OnConflict Node} {m : Node} {d : Dialect}
    (h : m ∈ (Node.onConflict c).parts d) : sizeOf m < sizeOf (Node.onConflict c) := by
  obtain ⟨columns, constraint, doNothing, updates, updateWhere⟩ := c
  simp only [Node.parts, List.mem_append, List.mem_map, Option.mem_toList] at h
  rcases h with (⟨a, ha, rfl⟩ | ⟨a, rfl, rfl⟩) | h
  · have hs := sizeOf_lt_of_mem_getD ha
    simp
    omega
  · simp
    omega
  · split at h
    · simp at h
    · simp only [List.mem_append, List.mem_map, Option.mem_toList] at h
      rcases h with ⟨a, ha, rfl⟩ | ⟨a, rfl, rfl⟩
      · have hs := sizeOf_lt_of_mem_getD ha
        simp
        omega
      · simp
        omega

theorem Node.sizeOf_pos (n : Node) : 0 < sizeOf n := by
  cases n <;> simp +arith

/-- A part is smaller than the node, so a recursion over parts ends. -/
theorem Node.sizeOf_parts {d : Dialect} {n m : Node} (h : m ∈ n.parts d) :
    sizeOf m < sizeOf n := by
  cases n
  case onConflict c => exact OnConflict.sizeOf_parts h
  all_goals simp only [parts, List.mem_append, List.mem_map, List.mem_cons, List.mem_flatMap,
    Option.mem_toList, List.not_mem_nil, or_false] at h
  case valueList | function | «from» | «using» | output | groupBy =>
    have hs := List.sizeOf_lt_of_mem h
    simp
    omega
  case raw =>
    have hs := List.sizeOf_lt_of_mem (List.mem_of_mem_take h)
    simp
    omega
  case returning | orderBy | values =>
    obtain ⟨a, ha, rfl⟩ := h
    have hs := List.sizeOf_lt_of_mem ha
    simp
    omega
  case parens | «on» | «where» | selection | having | limit | offset =>
    subst h
    simp
  case and | or =>
    rcases h with rfl | rfl
    all_goals simp <;> omega
  case «alias» n i =>
    have hn := sizeOf_pos n
    rcases h with rfl | rfl
    all_goals
      simp
      omega
  case unary op n =>
    have hn := sizeOf_pos n
    rcases h with rfl | rfl
    all_goals simp <;> omega
  case binary l op r =>
    have hl := sizeOf_pos l
    rcases h with rfl | rfl | rfl
    all_goals simp <;> omega
  case table t =>
    obtain ⟨schema, name⟩ := t
    rcases h with ⟨a, rfl, rfl⟩ | rfl
    all_goals simp <;> omega
  case column c =>
    obtain ⟨i⟩ := c
    subst h
    simp
  case reference =>
    rcases h with ⟨a, rfl, rfl⟩ | rfl
    all_goals simp <;> omega
  case join j =>
    obtain ⟨type, table, condition⟩ := j
    rcases h with rfl | ⟨a, rfl, rfl⟩
    all_goals
      simp
      omega
  case orderByItem i =>
    obtain ⟨expr, direction⟩ := i
    subst h
    simp
    omega
  case explain e =>
    obtain ⟨format, options⟩ := e
    subst h
    simp
    omega
  case «with» w =>
    obtain ⟨isRecursive, ctes⟩ := w
    obtain ⟨a, ha, rfl⟩ := h
    have hs : sizeOf a < sizeOf ctes := List.sizeOf_lt_of_mem ha
    simp
    omega
  case cte c =>
    obtain ⟨name, materialized, body⟩ := c
    rcases h with rfl | rfl
    all_goals
      simp
      omega
  case cteName n =>
    obtain ⟨table, columns⟩ := n
    rcases h with rfl | ⟨a, ha, rfl⟩
    · simp
      omega
    · have hs : sizeOf a + 1 < sizeOf columns := sizeOf_lt_of_mem_getD ha
      simp
      omega
  case assignment a =>
    obtain ⟨column, value⟩ := a
    rcases h with rfl | rfl
    all_goals
      simp
      omega
  case select =>
    obtain ⟨c, -, h⟩ := h
    have hs := Select.sizeOf_clauseParts h
    simp
    omega
  case insert =>
    obtain ⟨c, -, h⟩ := h
    have hs := Insert.sizeOf_clauseParts h
    simp
    omega
  case update =>
    obtain ⟨c, -, h⟩ := h
    have hs := Update.sizeOf_clauseParts h
    simp
    omega
  case delete =>
    obtain ⟨c, -, h⟩ := h
    have hs := Delete.sizeOf_clauseParts h
    simp
    omega

/-- Induction over a tree by its parts. -/
theorem Node.induction_parts (d : Dialect) {P : Node → Prop}
    (step : ∀ n, (∀ m ∈ n.parts d, P m) → P n) (n : Node) : P n :=
  step n fun m _ => Node.induction_parts d step m
termination_by sizeOf n
decreasing_by exact Node.sizeOf_parts ‹_›

/-! ## The walk -/

/-- A node and all nodes that are written below it: a node before its parts, and the parts one
after another. -/
def Node.walk (d : Dialect) (n : Node) : List Node :=
  n :: (n.parts d).attach.flatMap fun m => m.1.walk d
termination_by sizeOf n
decreasing_by exact Node.sizeOf_parts m.2

theorem Node.walk_eq (d : Dialect) (n : Node) :
    n.walk d = n :: (n.parts d).flatMap (Node.walk d) := by
  rw [walk]
  simp [List.flatMap_subtype]

theorem Node.forall_mem_walk {d : Dialect} {P : Node → Prop} {n : Node} :
    (∀ m ∈ n.walk d, P m) ↔ P n ∧ ∀ m ∈ n.parts d, ∀ k ∈ m.walk d, P k := by
  rw [walk_eq, List.forall_mem_cons, List.forall_mem_flatMap]

theorem Node.walk_subset_of_mem_parts {d : Dialect} {n m : Node} (h : m ∈ n.parts d) :
    m.walk d ⊆ n.walk d := by
  intro k hk
  rw [walk_eq d n]
  exact List.mem_cons_of_mem n (List.mem_flatMap.mpr ⟨m, h, hk⟩)

theorem Node.walk_subset_walk {d : Dialect} {n m : Node} (h : m ∈ n.walk d) :
    m.walk d ⊆ n.walk d := by
  induction n using Node.induction_parts d with
  | step n ih =>
      rw [walk_eq d n, List.mem_cons, List.mem_flatMap] at h
      rcases h with rfl | ⟨k, hk, hm⟩
      · exact List.Subset.refl _
      · exact List.Subset.trans (ih k hk hm) (walk_subset_of_mem_parts hk)

theorem Node.mem_walk_self (d : Dialect) (n : Node) : n ∈ n.walk d := by
  rw [walk_eq]
  exact List.mem_cons_self

/-- The value of a node that binds one. -/
def Node.bound? : Node → Option Value
  | .value v false => some v
  | _ => none

/-- The values that a walk meets and binds, in the order of the walk. -/
def Node.boundValues (d : Dialect) (n : Node) : List Value := (n.walk d).filterMap bound?

end SqlTree
