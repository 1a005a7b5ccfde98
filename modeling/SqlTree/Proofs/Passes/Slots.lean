import SqlTree.Proofs.Building.Nodes

/-! # Slots of a node

A node is made of scalars and of fields, and a field has slots for the nodes below it: one, at most
one, or a list of them. The fields stand in the order in which a pass goes over them. -/

namespace SqlTree

/-! ## What slots take -/

/-- What the slots of a field take, any node or the nodes of one kind, and what they hold of it. -/
structure Port (α : Type) where
  kind? : Option Kind
  make : α → Node
  take : Node → Except Error α

/-- A place in a node, with the node that is there. It may take one kind of nodes only. -/
structure Slot where
  kind? : Option Kind
  node : Node

namespace Slot

/-- The kind of the node is one that the slot takes. -/
def Takes (s : Slot) (n : Node) : Prop := ∀ k ∈ s.kind?, n.kind = k

/-- The node itself, if the slot takes it. -/
def check (s : Slot) (n : Node) : Except Error Node :=
  match s.kind? with
  | none => .ok n
  | some k => n.expect k

theorem check_eq_ok {s : Slot} {n m : Node} : s.check n = .ok m ↔ s.Takes n ∧ n = m := by
  cases hk : s.kind? with
  | none => simp [check, Takes, hk]
  | some k => by_cases h : n.kind = k <;> simp [check, Takes, Node.expect, hk, h]

theorem check_eq_error {s : Slot} {n : Node} {e : Error} :
    s.check n = .error e ↔ ∃ k, s.kind? = some k ∧ n.kind ≠ k ∧ e = .mismatch k n.kind := by
  cases hk : s.kind? with
  | none => simp [check, hk]
  | some k => by_cases h : n.kind = k <;> simp [check, Node.expect, hk, h, eq_comm (a := e)]

end Slot

/-- What a node of a kind carries is read back from it. -/
class KindOf.Lawful {α : Type} (k : KindOf α) : Prop where
  kind_make : ∀ a, (k.make a).kind = k.kind
  get?_make : ∀ a, k.get? (k.make a) = some a

instance : KindOf.Lawful .identifier := ⟨fun _ => rfl, fun _ => rfl⟩
instance : KindOf.Lawful .table := ⟨fun _ => rfl, fun _ => rfl⟩
instance : KindOf.Lawful .column := ⟨fun _ => rfl, fun _ => rfl⟩
instance : KindOf.Lawful .operator := ⟨fun _ => rfl, fun _ => rfl⟩
instance : KindOf.Lawful .valueList := ⟨fun _ => rfl, fun _ => rfl⟩
instance : KindOf.Lawful .from := ⟨fun _ => rfl, fun _ => rfl⟩
instance : KindOf.Lawful .using := ⟨fun _ => rfl, fun _ => rfl⟩
instance : KindOf.Lawful .join := ⟨fun _ => rfl, fun _ => rfl⟩
instance : KindOf.Lawful .on := ⟨fun _ => rfl, fun _ => rfl⟩
instance : KindOf.Lawful .where := ⟨fun _ => rfl, fun _ => rfl⟩
instance : KindOf.Lawful .selection := ⟨fun _ => rfl, fun _ => rfl⟩
instance : KindOf.Lawful .returning := ⟨fun _ => rfl, fun _ => rfl⟩
instance : KindOf.Lawful .output := ⟨fun _ => rfl, fun _ => rfl⟩
instance : KindOf.Lawful .orderBy := ⟨fun _ => rfl, fun _ => rfl⟩
instance : KindOf.Lawful .orderByItem := ⟨fun _ => rfl, fun _ => rfl⟩
instance : KindOf.Lawful .groupBy := ⟨fun _ => rfl, fun _ => rfl⟩
instance : KindOf.Lawful .having := ⟨fun _ => rfl, fun _ => rfl⟩
instance : KindOf.Lawful .limit := ⟨fun _ => rfl, fun _ => rfl⟩
instance : KindOf.Lawful .offset := ⟨fun _ => rfl, fun _ => rfl⟩
instance : KindOf.Lawful .top := ⟨fun _ => rfl, fun _ => rfl⟩
instance : KindOf.Lawful .explain := ⟨fun _ => rfl, fun _ => rfl⟩
instance : KindOf.Lawful .with := ⟨fun _ => rfl, fun _ => rfl⟩
instance : KindOf.Lawful .cte := ⟨fun _ => rfl, fun _ => rfl⟩
instance : KindOf.Lawful .cteName := ⟨fun _ => rfl, fun _ => rfl⟩
instance : KindOf.Lawful .assignment := ⟨fun _ => rfl, fun _ => rfl⟩
instance : KindOf.Lawful .onConflict := ⟨fun _ => rfl, fun _ => rfl⟩

theorem KindOf.as_make {α : Type} (k : KindOf α) [hk : k.Lawful] (a : α) :
    (k.make a).as k = .ok a := by
  rw [Node.as, hk.get?_make]

/-- The nodes of a kind are those that it makes, and it reads no others. -/
class KindOf.Exact {α : Type} (k : KindOf α) : Prop where
  cases : ∀ n, (∃ a, n = k.make a) ∨ (n.kind ≠ k.kind ∧ k.get? n = none) := by
    intro n
    cases n <;> first | exact .inr ⟨Kind.noConfusion, rfl⟩ | exact .inl ⟨_, rfl⟩

instance : KindOf.Exact .identifier := {}
instance : KindOf.Exact .table := {}
instance : KindOf.Exact .column := {}
instance : KindOf.Exact .operator := {}
instance : KindOf.Exact .valueList := {}
instance : KindOf.Exact .from := {}
instance : KindOf.Exact .using := {}
instance : KindOf.Exact .join := {}
instance : KindOf.Exact .on := {}
instance : KindOf.Exact .where := {}
instance : KindOf.Exact .selection := {}
instance : KindOf.Exact .returning := {}
instance : KindOf.Exact .output := {}
instance : KindOf.Exact .orderBy := {}
instance : KindOf.Exact .orderByItem := {}
instance : KindOf.Exact .groupBy := {}
instance : KindOf.Exact .having := {}
instance : KindOf.Exact .limit := {}
instance : KindOf.Exact .offset := {}
instance : KindOf.Exact .top := {}
instance : KindOf.Exact .explain := {}
instance : KindOf.Exact .with := {}
instance : KindOf.Exact .cte := {}
instance : KindOf.Exact .cteName := {}
instance : KindOf.Exact .assignment := {}
instance : KindOf.Exact .onConflict := {}

namespace Port

variable {α : Type}

/-- Any node. -/
def any : Port Node := ⟨none, id, .ok⟩

/-- Nodes of one kind, held as what they carry. -/
def only (k : KindOf α) : Port α := ⟨some k.kind, k.make, (·.as k)⟩

/-- The slots that hold some values. -/
def slots (q : Port α) (as : List α) : List Slot := as.map fun a => ⟨q.kind?, q.make a⟩

/-- The values of the nodes that are taken. -/
def read (q : Port α) (ns : List Node) : List α := ns.filterMap fun n => (q.take n).toOption

/-- The value for a field that has one slot. -/
def one (q : Port α) (i : Nat) (a : α) (css : List (List Node)) : α :=
  (q.read (css.getD i [])).headD a

/-- The value for a field that has at most one slot. -/
def opt (q : Port α) (i : Nat) (css : List (List Node)) : Option α := (q.read (css.getD i [])).head?

/-- The values for a field that is a list. -/
def all (q : Port α) (i : Nat) (css : List (List Node)) : List α := q.read (css.getD i [])

/-- The values for a field that is a list, if the list is there. -/
def optAll (q : Port α) (i : Nat) (as : Option (List α)) (css : List (List Node)) :
    Option (List α) :=
  as.map fun _ => q.read (css.getD i [])

/-- A port takes back what it makes, and refuses nodes by their kind. -/
class Lawful (q : Port α) : Prop where
  kind_make : ∀ a, ∀ k ∈ q.kind?, (q.make a).kind = k
  take_make : ∀ a, q.take (q.make a) = .ok a
  cases : ∀ n, (∃ a, n = q.make a) ∨
    ∃ k, q.kind? = some k ∧ n.kind ≠ k ∧ q.take n = .error (.mismatch k n.kind)

instance : any.Lawful := ⟨fun _ _ => nofun, fun _ => rfl, fun n => .inl ⟨n, rfl⟩⟩

instance (k : KindOf α) [hl : k.Lawful] [he : k.Exact] : (only k).Lawful where
  kind_make a := by
    simpa [only] using hl.kind_make a
  take_make a := k.as_make a
  cases n := by
    obtain h | ⟨hk, hg⟩ := he.cases n
    · exact .inl h
    · exact .inr ⟨k.kind, rfl, hk, by simp [only, Node.as, hg]⟩

variable (q : Port α) [hq : q.Lawful]

@[simp] theorem read_map_make (as : List α) : q.read (as.map q.make) = as := by
  simp [read, List.filterMap_map, hq.take_make, Except.toOption]

@[simp] theorem read_one (a : α) : q.read [q.make a] = [a] := q.read_map_make [a]

omit hq in
@[simp] theorem map_node_slots (as : List α) : (q.slots as).map Slot.node = as.map q.make := by
  simp [slots]

/-- The nodes that fit the slots of a list are made of another list of the same length. -/
theorem takes_slots_iff {as : List α} {ns : List Node} :
    List.Forall₂ Slot.Takes (q.slots as) ns ↔
      ∃ bs : List α, bs.length = as.length ∧ ns = bs.map q.make := by
  induction as generalizing ns with
  | nil => simp [slots]
  | cons a as ih =>
      have hs : q.slots (a :: as) = ⟨q.kind?, q.make a⟩ :: q.slots as := rfl
      rw [hs, List.forall₂_cons_left_iff]
      constructor
      · rintro ⟨n, ns, hn, hns, rfl⟩
        obtain ⟨bs, hb, rfl⟩ := ih.mp hns
        obtain ⟨b, rfl⟩ | ⟨k, hk, hnk, -⟩ := hq.cases n
        · exact ⟨b :: bs, by simp [hb], rfl⟩
        · exact absurd (hn k hk) hnk
      · rintro ⟨_ | ⟨b, bs⟩, hb, rfl⟩
        · cases hb
        · exact ⟨_, _, hq.kind_make b, ih.mpr ⟨bs, Nat.succ.inj hb, rfl⟩, rfl⟩

theorem takes_one_iff {a : α} {ns : List Node} :
    List.Forall₂ Slot.Takes (q.slots [a]) ns ↔ ∃ b, ns = [q.make b] := by
  rw [takes_slots_iff]
  constructor
  · rintro ⟨bs, hb, rfl⟩
    obtain ⟨b, rfl⟩ := List.length_eq_one_iff.mp hb
    exact ⟨b, rfl⟩
  · rintro ⟨b, rfl⟩
    exact ⟨[b], rfl, rfl⟩

theorem takes_opt_iff {x : Option α} {ns : List Node} :
    List.Forall₂ Slot.Takes (q.slots x.toList) ns ↔
      ∃ y : Option α, y.isSome = x.isSome ∧ ns = y.toList.map q.make := by
  cases x with
  | none => simp [slots]
  | some a =>
      rw [Option.toList_some, takes_one_iff]
      constructor
      · rintro ⟨b, rfl⟩
        exact ⟨some b, rfl, rfl⟩
      · rintro ⟨_ | b, hb, rfl⟩
        · cases hb
        · exact ⟨b, rfl⟩

theorem takes_optAll_iff {x : Option (List α)} {ns : List Node} :
    List.Forall₂ Slot.Takes (q.slots (x.getD [])) ns ↔
      ∃ y : Option (List α), y.map List.length = x.map List.length ∧
        ns = (y.getD []).map q.make := by
  rw [takes_slots_iff]
  cases x with
  | none => simp
  | some as =>
      constructor
      · rintro ⟨bs, hb, rfl⟩
        exact ⟨some bs, congrArg some hb, rfl⟩
      · rintro ⟨_ | bs, hb, rfl⟩
        · cases hb
        · exact ⟨bs, Option.some.inj hb, rfl⟩

theorem takes_self (as : List α) :
    List.Forall₂ Slot.Takes (q.slots as) ((q.slots as).map Slot.node) := by
  rw [map_node_slots, takes_slots_iff]
  exact ⟨as, rfl, rfl⟩

end Port

/-! ## Fields and scalars -/

open Port

/-- The slots of each field of a node, in the order in which a pass goes over them. -/
def Node.fields : Node → List (List Slot)
  | .identifier _ | .selectAll | .value .. | .operator _ | .top _ | .modifier _ => []
  | .table t => [(only .identifier).slots t.schema.toList, (only .identifier).slots [t.table]]
  | .column c => [(only .identifier).slots [c.column]]
  | .reference t n => [(only .table).slots t.toList, any.slots [n]]
  | .alias n i => [any.slots [n], (only .identifier).slots [i]]
  | .valueList ns | .raw _ ns | .function _ ns | .from ns | .using ns | .output ns | .groupBy ns =>
    [any.slots ns]
  | .binary l op r => [any.slots [l], (only .operator).slots [op], any.slots [r]]
  | .unary op n => [(only .operator).slots [op], any.slots [n]]
  | .and l r | .or l r => [any.slots [l], any.slots [r]]
  | .parens n | .on n | .where n | .selection n | .having n | .limit n | .offset n =>
    [any.slots [n]]
  | .join j => [any.slots [j.table], (only .on).slots j.condition.toList]
  | .returning ns => [(only .selection).slots ns]
  | .orderBy is => [(only .orderByItem).slots is]
  | .orderByItem i => [any.slots [i.expr]]
  | .explain e => [any.slots e.options.toList]
  | .with w => [(only .cte).slots w.ctes]
  | .cte c => [(only .cteName).slots [c.name], any.slots [c.body]]
  | .cteName n => [(only .identifier).slots [n.table], (only .column).slots (n.columns.getD [])]
  | .assignment a => [(only .column).slots [a.column], any.slots [a.value]]
  | .values rows => [(only .valueList).slots rows]
  | .onConflict c =>
    [(only .column).slots (c.columns.getD []), (only .identifier).slots c.constraint.toList,
      (only .assignment).slots (c.updates.getD []), (only .where).slots c.updateWhere.toList]
  | .select q =>
    [(only .with).slots q.withClause.toList, (only .explain).slots q.explain.toList,
      (only .top).slots q.top.toList, (only .selection).slots (q.selections.getD []),
      (only .from).slots q.fromItems.toList, (only .join).slots (q.joins.getD []),
      (only .where).slots q.whereClause.toList, (only .groupBy).slots q.groupBy.toList,
      (only .having).slots q.having.toList, (only .orderBy).slots q.orderBy.toList,
      (only .limit).slots q.limit.toList, (only .offset).slots q.offset.toList,
      any.slots (q.endModifiers.getD [])]
  | .insert q =>
    [(only .with).slots q.withClause.toList, (only .explain).slots q.explain.toList,
      (only .top).slots q.top.toList, (only .table).slots [q.into],
      (only .column).slots (q.columns.getD []), any.slots q.source.toList,
      (only .onConflict).slots q.onConflict.toList, (only .returning).slots q.returning.toList,
      (only .output).slots q.output.toList, any.slots (q.endModifiers.getD [])]
  | .update q =>
    [(only .with).slots q.withClause.toList, (only .explain).slots q.explain.toList,
      (only .top).slots q.top.toList, any.slots [q.table],
      (only .assignment).slots (q.assignments.getD []), (only .from).slots q.fromItems.toList,
      (only .join).slots (q.joins.getD []), (only .where).slots q.whereClause.toList,
      (only .returning).slots q.returning.toList, (only .output).slots q.output.toList,
      (only .orderBy).slots q.orderBy.toList, (only .limit).slots q.limit.toList,
      any.slots (q.endModifiers.getD [])]
  | .delete q =>
    [(only .with).slots q.withClause.toList, (only .explain).slots q.explain.toList,
      (only .top).slots q.top.toList, (only .from).slots [q.fromItems],
      (only .using).slots q.usingItems.toList, (only .join).slots (q.joins.getD []),
      (only .where).slots q.whereClause.toList, (only .returning).slots q.returning.toList,
      (only .output).slots q.output.toList, (only .orderBy).slots q.orderBy.toList,
      (only .limit).slots q.limit.toList, any.slots (q.endModifiers.getD [])]

/-- Data of a node that is not a node. -/
inductive Scalar where
  | text (s : String)
  | texts (ss : List String)
  | value (v : Value)
  | flag (b : Bool)
  | choice (b : Option Bool)
  | operator (op : Operator)
  | joinType (t : JoinType)
  | direction (d : Option Direction)
  | format (f : Option ExplainFormat)
  | count (n : UInt64)
  | topModifier (m : Option TopModifier)
  | modifier (m : StatementModifier)

/-- The scalars of a node. Whether an optional list is there is one of them: an empty list has no
slots to tell. -/
def Node.scalars : Node → List Scalar
  | .identifier i => [.text i.name]
  | .value v immediate => [.value v, .flag immediate]
  | .raw fragments _ => [.texts fragments]
  | .operator op => [.operator op]
  | .function name _ => [.text name]
  | .join j => [.joinType j.type]
  | .orderByItem i => [.direction i.direction]
  | .top t => [.count t.count, .topModifier t.modifier]
  | .explain e => [.format e.format]
  | .with w => [.flag w.isRecursive]
  | .cte c => [.choice c.materialized]
  | .cteName n => [.flag n.columns.isSome]
  | .onConflict c => [.flag c.doNothing, .flag c.columns.isSome, .flag c.updates.isSome]
  | .modifier m => [.modifier m]
  | .select q =>
    [.flag q.distinct, .flag q.selections.isSome, .flag q.joins.isSome,
      .flag q.endModifiers.isSome]
  | .insert q =>
    [.flag q.defaultValues, .flag q.ignore, .flag q.columns.isSome, .flag q.endModifiers.isSome]
  | .update q => [.flag q.assignments.isSome, .flag q.joins.isSome, .flag q.endModifiers.isSome]
  | .delete q => [.flag q.joins.isSome, .flag q.endModifiers.isSome]
  | _ => []

/-- A node with other nodes in its fields. -/
def Node.refill (css : List (List Node)) : Node → Node
  | .identifier i => .identifier i
  | .table t => .table ⟨(only .identifier).opt 0 css, (only .identifier).one 1 t.table css⟩
  | .column c => .column ⟨(only .identifier).one 0 c.column css⟩
  | .reference _ n => .reference ((only .table).opt 0 css) (any.one 1 n css)
  | .selectAll => .selectAll
  | .alias n i => .alias (any.one 0 n css) ((only .identifier).one 1 i css)
  | .value v immediate => .value v immediate
  | .valueList _ => .valueList (any.all 0 css)
  | .raw fragments _ => .raw fragments (any.all 0 css)
  | .operator op => .operator op
  | .binary l op r =>
    .binary (any.one 0 l css) ((only .operator).one 1 op css) (any.one 2 r css)
  | .unary op n => .unary ((only .operator).one 0 op css) (any.one 1 n css)
  | .and l r => .and (any.one 0 l css) (any.one 1 r css)
  | .or l r => .or (any.one 0 l css) (any.one 1 r css)
  | .parens n => .parens (any.one 0 n css)
  | .function name _ => .function name (any.all 0 css)
  | .from _ => .from (any.all 0 css)
  | .using _ => .using (any.all 0 css)
  | .join j => .join { j with table := any.one 0 j.table css, condition := (only .on).opt 1 css }
  | .on n => .on (any.one 0 n css)
  | .where n => .where (any.one 0 n css)
  | .selection n => .selection (any.one 0 n css)
  | .returning _ => .returning ((only .selection).all 0 css)
  | .output _ => .output (any.all 0 css)
  | .orderBy _ => .orderBy ((only .orderByItem).all 0 css)
  | .orderByItem i => .orderByItem { i with expr := any.one 0 i.expr css }
  | .groupBy _ => .groupBy (any.all 0 css)
  | .having n => .having (any.one 0 n css)
  | .limit n => .limit (any.one 0 n css)
  | .offset n => .offset (any.one 0 n css)
  | .top t => .top t
  | .explain e => .explain { e with options := any.opt 0 css }
  | .with w => .with { w with ctes := (only .cte).all 0 css }
  | .cte c =>
    .cte { c with name := (only .cteName).one 0 c.name css, body := any.one 1 c.body css }
  | .cteName n =>
    .cteName ⟨(only .identifier).one 0 n.table css, (only .column).optAll 1 n.columns css⟩
  | .assignment a => .assignment ⟨(only .column).one 0 a.column css, any.one 1 a.value css⟩
  | .values _ => .values ((only .valueList).all 0 css)
  | .onConflict c =>
    .onConflict
      { c with
        columns := (only .column).optAll 0 c.columns css
        constraint := (only .identifier).opt 1 css
        updates := (only .assignment).optAll 2 c.updates css
        updateWhere := (only .where).opt 3 css }
  | .modifier m => .modifier m
  | .select q =>
    .select
      { q with
        withClause := (only .with).opt 0 css
        explain := (only .explain).opt 1 css
        top := (only .top).opt 2 css
        selections := (only .selection).optAll 3 q.selections css
        fromItems := (only .from).opt 4 css
        joins := (only .join).optAll 5 q.joins css
        whereClause := (only .where).opt 6 css
        groupBy := (only .groupBy).opt 7 css
        having := (only .having).opt 8 css
        orderBy := (only .orderBy).opt 9 css
        limit := (only .limit).opt 10 css
        offset := (only .offset).opt 11 css
        endModifiers := any.optAll 12 q.endModifiers css }
  | .insert q =>
    .insert
      { q with
        withClause := (only .with).opt 0 css
        explain := (only .explain).opt 1 css
        top := (only .top).opt 2 css
        into := (only .table).one 3 q.into css
        columns := (only .column).optAll 4 q.columns css
        source := any.opt 5 css
        onConflict := (only .onConflict).opt 6 css
        returning := (only .returning).opt 7 css
        output := (only .output).opt 8 css
        endModifiers := any.optAll 9 q.endModifiers css }
  | .update q =>
    .update
      { q with
        withClause := (only .with).opt 0 css
        explain := (only .explain).opt 1 css
        top := (only .top).opt 2 css
        table := any.one 3 q.table css
        assignments := (only .assignment).optAll 4 q.assignments css
        fromItems := (only .from).opt 5 css
        joins := (only .join).optAll 6 q.joins css
        whereClause := (only .where).opt 7 css
        returning := (only .returning).opt 8 css
        output := (only .output).opt 9 css
        orderBy := (only .orderBy).opt 10 css
        limit := (only .limit).opt 11 css
        endModifiers := any.optAll 12 q.endModifiers css }
  | .delete q =>
    .delete
      { q with
        withClause := (only .with).opt 0 css
        explain := (only .explain).opt 1 css
        top := (only .top).opt 2 css
        fromItems := (only .from).one 3 q.fromItems css
        usingItems := (only .using).opt 4 css
        joins := (only .join).optAll 5 q.joins css
        whereClause := (only .where).opt 6 css
        returning := (only .returning).opt 7 css
        output := (only .output).opt 8 css
        orderBy := (only .orderBy).opt 9 css
        limit := (only .limit).opt 10 css
        endModifiers := any.optAll 11 q.endModifiers css }

end SqlTree
