import SqlTree.Proofs.Building.Slots

/-! # Built trees

The trees that the factories and mutators can build, in any order of calls, and the invariant that
all of them keep. -/

namespace SqlTree

/-- The clauses that are a single predicate. -/
inductive PredicateKind where
  | on | where | having

/-- The node of a predicate. -/
def PredicateKind.node : PredicateKind → Node → Node
  | .on => .on
  | .where => .where
  | .having => .having

theorem PredicateKind.orderly_node (k : PredicateKind) {n : Node} :
    (k.node n).Orderly ↔ n.Orderly := by
  cases k <;> exact Node.orderly_around rfl trivial

/-- The trees that any sequence of calls can build. A part of a built tree can be used again. -/
inductive Node.Built : Node → Prop
  -- names
  | identifier {s : String} {i : Identifier} (h : Identifier.ofString s = .ok i) :
      Built (.identifier i)
  | table {s : String} {t : Table} (h : Table.ofString s = .ok t) : Built (.table t)
  | tableIn {schema s : String} {t : Table} (h : Table.qualified schema s = .ok t) :
      Built (.table t)
  | withSchema {t : Table} {i : Identifier} (ht : Built (.table t)) (hi : Built (.identifier i)) :
      Built (.table (t.withSchema i))
  | column {s : String} {c : Column} (h : Column.ofString s = .ok c) : Built (.column c)
  | selectAll : Built .selectAll
  | columnRef {c : Column} {t : Option Table} (hc : Built (.column c))
      (ht : ∀ x ∈ t, Built (.table x)) : Built (columnRef c t)
  | allOf {t : Table} (ht : Built (.table t)) : Built (allOf t)
  | dotted {s : String} {n : Node} (h : dotted s = .ok n) : Built n
  | aliased {n m : Node} {s : String} (hn : Built n) (h : aliased n s = .ok m) : Built m
  -- expressions
  | value (v : Value) (immediate : Bool) : Built (.value v immediate)
  | raw {fragments : List String} {ns : List Node} {m : Node} (hn : ∀ n ∈ ns, Built n)
      (h : rawWith fragments ns = .ok m) : Built m
  | rawText (sql : String) : Built (rawText sql)
  | operator (op : Operator) : Built (.operator op)
  | binary {l r : Node} (hl : Built l) (op : Operator) (hr : Built r) : Built (.binary l op r)
  | applied {op : Operator} {n m : Node} (hn : Built n) (h : applied op n = .ok m) : Built m
  | merge (op : Connective) {l r : Node} (hl : Built l) (hr : Built r) : Built (op.merge l r)
  | parens {n : Node} (hn : Built n) : Built (.parens n)
  | call {name : String} {ns : List Node} {m : Node} (hn : ∀ n ∈ ns, Built n)
      (h : call name ns = .ok m) : Built m
  -- clauses
  | items {α : Type} (k : ListKind α) {xs ys : List α} (hx : ∀ x ∈ xs, Built (k.item x))
      (h : k.check.items xs = .ok ys) : Built (k.node ys)
  | moreItems {α : Type} (k : ListKind α) {xs ys : List α} (hx : Built (k.node xs))
      (hy : ∀ y ∈ ys, Built (k.item y)) : Built (k.node (xs ++ ys))
  | predicate (k : PredicateKind) {n : Node} (hn : Built n) : Built (k.node n)
  | mergeInto (k : PredicateKind) (op : Connective) {l r : Node} (hl : Built (k.node l))
      (hr : Built r) : Built (k.node (op.merge l r))
  | join (type : JoinType) {n : Node} {condition : Option Node} (hn : Built n)
      (hc : ∀ c ∈ condition, Built c) : Built (.join ⟨type, n, condition⟩)
  | joinOn {j : Join Node} {n : Node} (hj : Built (.join j)) (hn : Built n) :
      Built (.join (j.withCondition n))
  | selection {n : Node} (hn : Built n) : Built (.selection n)
  | sortItem {n : Node} (hn : Built n) (direction : Option Direction) :
      Built (.orderByItem ⟨n, direction⟩)
  | limit {n : Node} (hn : Built n) : Built (.limit n)
  | offset {n : Node} (hn : Built n) : Built (.offset n)
  | top (count : UInt64) (modifier : Option TopModifier) : Built (.top ⟨count, modifier⟩)
  | explain (format : Option ExplainFormat) {options : Option Node}
      (ho : ∀ n ∈ options, Built n) : Built (.explain ⟨format, options⟩)
  | cteName {s : String} {columns : Option (List String)} {n : CteName}
      (h : CteName.ofStrings s columns = .ok n) : Built (.cteName n)
  | cte {name : CteName} {n : Node} (hc : Built (.cteName name)) (hn : Built n)
      (materialized : Option Bool) : Built (.cte ⟨name, materialized, n⟩)
  | with {c : Cte Node} (hc : Built (.cte c)) (isRecursive : Bool) :
      Built (.with (.single c isRecursive))
  | moreCtes {w : With Node} {c : Cte Node} (hw : Built (.with w)) (hc : Built (.cte c)) :
      Built (.with (w.add c))
  | assignment {c : Column} {n : Node} (hc : Built (.column c)) (hn : Built n) :
      Built (.assignment ⟨c, n⟩)
  | setValue {s : String} {v : Value} {a : Assignment Node} (h : Assignment.ofValue s v = .ok a) :
      Built (.assignment a)
  | ignoring {cs : List Column} (hc : ∀ c ∈ cs, Built (.column c)) :
      Built (.onConflict (.ignoring cs))
  | updating {cs : List Column} {as : List (Assignment Node)} {c : OnConflict Node}
      (hc : ∀ c ∈ cs, Built (.column c)) (ha : ∀ a ∈ as, Built (.assignment a))
      (h : OnConflict.updating cs as = .ok c) : Built (.onConflict c)
  | withConstraint {c d : OnConflict Node} {s : String} (hc : Built (.onConflict c))
      (h : c.withConstraint s = .ok d) : Built (.onConflict d)
  | withCondition {c : OnConflict Node} {n : Node} (hc : Built (.onConflict c)) (hn : Built n) :
      Built (.onConflict (c.withCondition n))
  | modifier (m : StatementModifier) : Built (.modifier m)
  -- statements
  | select : Built (.select {})
  | selectFrom {ns : List Node} {w : Option (With Node)} {q : Select Node}
      (hn : ∀ n ∈ ns, Built n) (hw : ∀ x ∈ w, Built (.with x)) (h : Select.ofItems ns w = .ok q) :
      Built (.select q)
  | selectCall {q r : Select Node} (c : Select.Call) (hq : Built (.select q))
      (hc : ∀ n ∈ c.arguments, Built n) (h : c.run q = .ok r) : Built (.select r)
  | insert {t : Table} {w : Option (With Node)} (ht : Built (.table t))
      (hw : ∀ x ∈ w, Built (.with x)) : Built (.insert (.ofTable t w))
  | insertCall {q r : Insert Node} (c : Insert.Call) (hq : Built (.insert q))
      (hc : ∀ n ∈ c.arguments, Built n) (h : c.run q = .ok r) : Built (.insert r)
  | update {n : Node} {w : Option (With Node)} (hn : Built n) (hw : ∀ x ∈ w, Built (.with x)) :
      Built (.update (.ofTable n w))
  | updateCall {q r : Update Node} (c : Update.Call) (hq : Built (.update q))
      (hc : ∀ n ∈ c.arguments, Built n) (h : c.run q = .ok r) : Built (.update r)
  | delete {ns : List Node} {w : Option (With Node)} {q : Delete Node} (hn : ∀ n ∈ ns, Built n)
      (hw : ∀ x ∈ w, Built (.with x)) (h : Delete.ofItems ns w = .ok q) : Built (.delete q)
  | deleteCall {q r : Delete Node} (c : Delete.Call) (hq : Built (.delete q))
      (hc : ∀ n ∈ c.arguments, Built n) (h : c.run q = .ok r) : Built (.delete r)
  -- whole trees
  | qualified {n m : Node} {s : String} {schema : Identifier} (hn : Built n)
      (hs : Identifier.ofString s = .ok schema) (h : n.qualify schema = .ok m) : Built m
  | child {n m : Node} (hn : Built n) (hm : m ∈ n.children) : Built m

/-! ## Names -/

theorem bind_eq_ok {α β : Type} {x : Except Error α} {f : α → Except Error β} {b : β} :
    x >>= f = .ok b ↔ ∃ a, x = .ok a ∧ f a = .ok b := by
  cases x <;> simp [bind, Except.bind]

theorem forall_of_mapM_eq_ok {α β : Type} {P : β → Prop} {f : α → Except Error β}
    (hf : ∀ a b, f a = .ok b → P b) {xs : List α} {ys : List β} (h : xs.mapM f = .ok ys) :
    ∀ y ∈ ys, P y := by
  induction xs generalizing ys with
  | nil =>
      cases h
      simp
  | cons x xs ih =>
      rw [List.mapM_cons, bind_eq_ok] at h
      obtain ⟨y, hy, h⟩ := h
      obtain ⟨zs, hz, h⟩ := bind_eq_ok.mp h
      cases h
      exact List.forall_mem_cons.mpr ⟨hf x y hy, ih hz⟩

theorem Identifier.ofString_eq_ok {s : String} {i : Identifier} :
    ofString s = .ok i ↔ s ≠ "" ∧ ⟨s⟩ = i := by
  rw [ofString]
  split <;> simp_all

theorem Table.ofString_eq_ok {s : String} {t : Table} :
    ofString s = .ok t ↔ s ≠ "" ∧ ⟨none, ⟨s⟩⟩ = t := by
  simp [ofString, bind_eq_ok, Identifier.ofString_eq_ok, pure, Except.pure]

theorem Table.qualified_eq_ok {schema s : String} {t : Table} :
    qualified schema s = .ok t ↔ schema ≠ "" ∧ s ≠ "" ∧ ⟨some ⟨schema⟩, ⟨s⟩⟩ = t := by
  simp [qualified, bind_eq_ok, Identifier.ofString_eq_ok, pure, Except.pure]

theorem Column.ofString_eq_ok {s : String} {c : Column} :
    ofString s = .ok c ↔ s ≠ "" ∧ ⟨⟨s⟩⟩ = c := by
  simp [ofString, bind_eq_ok, Identifier.ofString_eq_ok, pure, Except.pure]

theorem CteName.orderly_ofStrings {s : String} {columns : Option (List String)} {n : CteName}
    (h : ofStrings s columns = .ok n) : (Node.cteName n).Orderly := by
  simp only [ofStrings, bind_eq_ok, Identifier.ofString_eq_ok, pure, Except.pure,
    Except.ok.injEq] at h
  obtain ⟨cs, hcs, i, ⟨hs, rfl⟩, rfl⟩ := h
  have hc : ∀ c ∈ cs.getD [], (Node.column c).Orderly := by
    cases columns with
    | none =>
        cases hcs
        simp
    | some ss =>
        rw [Option.mapM_some] at hcs
        cases hm : ss.mapM Column.ofString with
        | error e => simp [hm, Functor.map, Except.map] at hcs
        | ok ds =>
            simp only [hm, Functor.map, Except.map, Except.ok.injEq] at hcs
            subst hcs
            refine forall_of_mapM_eq_ok (fun s c h => ?_) hm
            obtain ⟨hs, rfl⟩ := Column.ofString_eq_ok.mp h
            exact Node.orderly_column.mpr hs
  rw [Node.orderly_iff]
  simpa [Node.children, Node.parts, Node.orderly_identifier, hs, forall_and] using hc

namespace Node

theorem orderly_columnRef {c : Column} {t : Option Table} (hc : (Node.column c).Orderly)
    (ht : ∀ x ∈ t, (Node.table x).Orderly) : (columnRef c t).Orderly := by
  rw [columnRef, orderly_iff]
  simp_all [children, parts, kind, or_imp]

theorem orderly_allOf {t : Table} (ht : (Node.table t).Orderly) : (allOf t).Orderly := by
  rw [allOf, orderly_iff]
  simp_all [children, parts, kind, orderly_iff (n := .selectAll)]

theorem orderly_dotted {s : String} {n : Node} (h : dotted s = .ok n) : n.Orderly := by
  rw [dotted] at h
  split at h
  · simp only [bind_eq_ok, Column.ofString_eq_ok, pure, Except.pure, Except.ok.injEq] at h
    obtain ⟨c, ⟨hs, rfl⟩, rfl⟩ := h
    exact orderly_columnRef (orderly_column.mpr hs) (by simp)
  · split at h
    · simp only [bind_eq_ok, Table.ofString_eq_ok, pure, Except.pure, Except.ok.injEq] at h
      obtain ⟨t, ⟨hs, rfl⟩, rfl⟩ := h
      exact orderly_allOf (orderly_table.mpr ⟨by simp, hs⟩)
    · simp only [bind_eq_ok, Table.ofString_eq_ok, Column.ofString_eq_ok, pure, Except.pure,
        Except.ok.injEq] at h
      obtain ⟨c, ⟨hs, rfl⟩, t, ⟨ht, rfl⟩, rfl⟩ := h
      refine orderly_columnRef (orderly_column.mpr hs) ?_
      rintro _ ⟨⟩
      exact orderly_table.mpr ⟨by simp, ht⟩

theorem orderly_leaf {n : Node} (hc : n.children = []) (hn : n.Regular) : n.Orderly := by
  rw [orderly_iff, hc]
  exact ⟨hn, nofun⟩

theorem orderly_of_child {n m : Node} (hc : n.children = [m]) (hn : n.Regular) (hm : m.Orderly) :
    n.Orderly :=
  (orderly_around hc hn).mpr hm

theorem orderly_operator (op : Operator) : (Node.operator op).Orderly := orderly_leaf rfl trivial

theorem orderly_selectAll : Node.selectAll.Orderly := orderly_leaf rfl trivial

theorem orderly_aliased {n m : Node} {s : String} (h : aliased n s = .ok m) (hn : n.Orderly) :
    m.Orderly := by
  simp only [aliased, bind_eq_ok, Identifier.ofString_eq_ok, pure, Except.pure,
    Except.ok.injEq] at h
  obtain ⟨i, ⟨hs, rfl⟩, rfl⟩ := h
  rw [orderly_iff]
  simp [children, parts, hn, orderly_identifier, hs]

theorem orderly_rawWith {fragments : List String} {ns : List Node} {m : Node}
    (h : rawWith fragments ns = .ok m) (hn : ∀ n ∈ ns, n.Orderly) : m.Orderly := by
  rw [rawWith] at h
  split at h
  · cases h
    rename_i hl
    exact orderly_iff.mpr ⟨hl, hn⟩
  · cases h

theorem orderly_applied {op : Operator} {n m : Node} (h : applied op n = .ok m) (hn : n.Orderly) :
    m.Orderly := by
  rw [applied] at h
  split at h
  · cases h
    rename_i hop
    rw [orderly_iff]
    simp [children, parts, hop, hn, orderly_operator]
  · cases h

theorem orderly_call {name : String} {ns : List Node} {m : Node} (h : call name ns = .ok m)
    (hn : ∀ n ∈ ns, n.Orderly) : m.Orderly := by
  rw [call] at h
  split at h
  · cases h
  · cases h
    exact orderly_iff.mpr ⟨by simp_all, hn⟩

end Node

/-! ## Clauses -/

theorem Node.orderly_join {j : Join Node} :
    (Node.join j).Orderly ↔ j.table.Orderly ∧ ∀ c ∈ j.condition, c.Orderly := by
  have ho (n : Node) : (Node.on n).Orderly ↔ n.Orderly := orderly_around rfl trivial
  rw [orderly_iff]
  simp [children, parts, ho]

theorem Join.orderly_withCondition {j : Join Node} {n : Node} (hj : (Node.join j).Orderly)
    (hn : n.Orderly) : (Node.join (j.withCondition n)).Orderly := by
  rw [Node.orderly_join] at hj ⊢
  refine ⟨hj.1, ?_⟩
  rintro _ ⟨⟩
  exact Connective.orderly_mergeOpt hj.2 hn

theorem Node.orderly_assignment {a : Assignment Node} :
    (Node.assignment a).Orderly ↔ (Node.column a.column).Orderly ∧ a.value.Orderly := by
  rw [orderly_iff]
  simp [children, parts]

theorem Assignment.orderly_ofValue {s : String} {v : Value} {a : Assignment Node}
    (h : ofValue s v = .ok a) : (Node.assignment a).Orderly := by
  simp only [ofValue, bind_eq_ok, Column.ofString_eq_ok, pure, Except.pure, Except.ok.injEq] at h
  obtain ⟨c, ⟨hs, rfl⟩, rfl⟩ := h
  exact Node.orderly_assignment.mpr ⟨Node.orderly_column.mpr hs, Node.orderly_leaf rfl trivial⟩

theorem Node.orderly_onConflict {c : OnConflict Node} :
    (Node.onConflict c).Orderly ↔
      (c.doNothing = (c.updates.getD []).isEmpty ∧ c.columns ≠ some []) ∧
      (∀ x ∈ c.columns.getD [], (Node.column x).Orderly) ∧
      (∀ i ∈ c.constraint, (Node.identifier i).Orderly) ∧
      (∀ a ∈ c.updates.getD [], (Node.assignment a).Orderly) ∧
      ∀ p ∈ c.updateWhere, p.Orderly := by
  have hw (n : Node) : (Node.where n).Orderly ↔ n.Orderly := orderly_around rfl trivial
  rw [orderly_iff]
  simp [children, or_imp, forall_and, hw]

theorem OnConflict.mem_target {cs : List Column} {c : Column} (h : c ∈ (target cs).getD []) :
    c ∈ cs := by
  rw [target] at h
  split at h
  · cases h
  · exact h

theorem OnConflict.target_ne_nil (cs : List Column) : target cs ≠ some [] := by
  rw [target]
  split
  · exact Option.some_ne_none _ |>.symm
  · rintro ⟨⟩
    contradiction

theorem OnConflict.orderly_ignoring {cs : List Column}
    (hc : ∀ c ∈ cs, (Node.column c).Orderly) : (Node.onConflict (.ignoring cs)).Orderly :=
  Node.orderly_onConflict.mpr
    ⟨⟨rfl, target_ne_nil cs⟩, fun c h => hc c (mem_target h), nofun, nofun, nofun⟩

theorem OnConflict.orderly_updating {cs : List Column} {as : List (Assignment Node)}
    {c : OnConflict Node} (h : updating cs as = .ok c) (hc : ∀ c ∈ cs, (Node.column c).Orderly)
    (ha : ∀ a ∈ as, (Node.assignment a).Orderly) : (Node.onConflict c).Orderly := by
  rw [updating] at h
  split at h
  · cases h
  · cases h
    rename_i he
    exact Node.orderly_onConflict.mpr
      ⟨⟨(Bool.eq_false_iff.mpr he).symm, target_ne_nil cs⟩, fun c h => hc c (mem_target h),
        nofun, ha, nofun⟩

theorem OnConflict.orderly_withConstraint {c d : OnConflict Node} {s : String}
    (h : c.withConstraint s = .ok d) (hc : (Node.onConflict c).Orderly) :
    (Node.onConflict d).Orderly := by
  simp only [withConstraint, bind_eq_ok, Identifier.ofString_eq_ok, pure, Except.pure,
    Except.ok.injEq] at h
  obtain ⟨i, ⟨hs, rfl⟩, rfl⟩ := h
  rw [Node.orderly_onConflict] at hc ⊢
  refine ⟨hc.1, hc.2.1, ?_, hc.2.2.2⟩
  rintro _ ⟨⟩
  exact Node.orderly_identifier.mpr hs

theorem OnConflict.orderly_withCondition {c : OnConflict Node} {n : Node}
    (hc : (Node.onConflict c).Orderly) (hn : n.Orderly) :
    (Node.onConflict (c.withCondition n)).Orderly := by
  rw [Node.orderly_onConflict] at hc ⊢
  obtain ⟨hd, hcs, hi, ha, hp⟩ := hc
  refine ⟨hd, hcs, hi, ha, ?_⟩
  rintro _ ⟨⟩
  exact Connective.orderly_mergeOpt hp hn

/-! ## Statements -/

open IsStatement in
theorem Statement.orderly_setWith {σ : Type} [IsStatement σ] [HasSlot .with σ (With Node)]
    [LawfulSlot .with σ] {q : σ} {w : Option (With Node)} (hq : (node q).Orderly)
    (hw : ∀ x ∈ w, (Node.with x).Orderly) : (node (HasSlot.set .with w q)).Orderly :=
  LawfulSlot.orderly_set hq (by simpa [Content.parts] using hw)

theorem Select.orderly_empty : (Node.select {}).Orderly := Node.orderly_leaf rfl trivial

theorem Select.orderly_ofItems {ns : List Node} {w : Option (With Node)} {q : Select Node}
    (h : ofItems ns w = .ok q) (hn : ∀ n ∈ ns, n.Orderly) (hw : ∀ x ∈ w, (Node.with x).Orderly) :
    (Node.select q).Orderly := by
  simp only [ofItems, bind_eq_ok, pure, Except.pure, Except.ok.injEq] at h
  obtain ⟨ms, hi, rfl⟩ := h
  have hf : (Node.select { fromItems := some ms }).Orderly :=
    LawfulSlot.orderly_set (c := .from) (q := ({} : Select Node)) orderly_empty
      (List.forall_mem_singleton.mpr (ListKind.from.orderly_items hi hn))
  exact Statement.orderly_setWith (q := ({ fromItems := some ms } : Select Node)) hf hw

theorem Insert.orderly_ofTable {t : Table} {w : Option (With Node)} (ht : (Node.table t).Orderly)
    (hw : ∀ x ∈ w, (Node.with x).Orderly) : (Node.insert (.ofTable t w)).Orderly := by
  have hi : (Node.insert { into := t }).Orderly :=
    Node.orderly_around (m := .table t) rfl (by simp) |>.mpr ht
  exact Statement.orderly_setWith (q := ({ into := t } : Insert Node)) hi hw

theorem Update.orderly_ofTable {n : Node} {w : Option (With Node)} (hn : n.Orderly)
    (hw : ∀ x ∈ w, (Node.with x).Orderly) : (Node.update (.ofTable n w)).Orderly := by
  have hu : (Node.update { table := n }).Orderly := Node.orderly_of_child rfl trivial hn
  exact Statement.orderly_setWith (q := ({ table := n } : Update Node)) hu hw

theorem Delete.orderly_ofItems {ns : List Node} {w : Option (With Node)} {q : Delete Node}
    (h : ofItems ns w = .ok q) (hn : ∀ n ∈ ns, n.Orderly) (hw : ∀ x ∈ w, (Node.with x).Orderly) :
    (Node.delete q).Orderly := by
  simp only [ofItems, bind_eq_ok, pure, Except.pure, Except.ok.injEq] at h
  obtain ⟨ms, hi, rfl⟩ := h
  have hd : (Node.delete { fromItems := ms }).Orderly :=
    Node.orderly_of_child rfl trivial (ListKind.from.orderly_items hi hn)
  exact Statement.orderly_setWith (q := ({ fromItems := ms } : Delete Node)) hd hw

/-! ## The invariant -/

namespace Node

theorem Built.orderly {n : Node} (h : n.Built) : n.Orderly := by
  -- On how the tree is built: what a call is given is orderly, so what it makes is.
  induction h with
  | identifier h =>
      obtain ⟨hs, rfl⟩ := Identifier.ofString_eq_ok.mp h
      exact orderly_identifier.mpr hs
  | table h =>
      obtain ⟨hs, rfl⟩ := Table.ofString_eq_ok.mp h
      exact orderly_table.mpr ⟨by simp, hs⟩
  | tableIn h =>
      obtain ⟨hq, hs, rfl⟩ := Table.qualified_eq_ok.mp h
      exact orderly_table.mpr ⟨by simpa using hq, hs⟩
  | withSchema _ _ ht hi =>
      exact orderly_table.mpr
        ⟨by simpa [Table.withSchema, orderly_identifier] using hi, (orderly_table.mp ht).2⟩
  | column h =>
      obtain ⟨hs, rfl⟩ := Column.ofString_eq_ok.mp h
      exact orderly_column.mpr hs
  | selectAll => exact orderly_selectAll
  | columnRef _ _ hc ht => exact orderly_columnRef hc ht
  | allOf _ ht => exact orderly_allOf ht
  | dotted h => exact orderly_dotted h
  | aliased _ h hn => exact orderly_aliased h hn
  | value v immediate => exact orderly_leaf rfl trivial
  | raw _ h hn => exact orderly_rawWith h hn
  | rawText sql => exact orderly_leaf rfl rfl
  | operator op => exact orderly_operator op
  | binary _ op _ hl hr =>
      rw [orderly_iff]
      simp [children, parts, hl, hr, orderly_operator]
  | applied _ h hn => exact orderly_applied h hn
  | merge op _ _ hl hr => exact Connective.orderly_merge hl hr
  | parens _ hn => exact orderly_of_child rfl trivial hn
  | call _ h hn => exact orderly_call h hn
  | items k _ h hx => exact k.orderly_items h hx
  | moreItems k _ _ hx hy => exact k.orderly_append hx hy
  | predicate k _ hn => exact k.orderly_node.mpr hn
  | mergeInto k op _ _ hl hr =>
      exact k.orderly_node.mpr (Connective.orderly_merge (k.orderly_node.mp hl) hr)
  | join type _ _ hn hc => exact orderly_join.mpr ⟨hn, hc⟩
  | joinOn _ _ hj hn => exact Join.orderly_withCondition hj hn
  | selection _ hn => exact orderly_of_child rfl trivial hn
  | sortItem _ direction hn => exact orderly_of_child rfl trivial hn
  | limit _ hn => exact orderly_of_child rfl trivial hn
  | offset _ hn => exact orderly_of_child rfl trivial hn
  | top count modifier => exact orderly_leaf rfl trivial
  | explain format _ ho => exact orderly_iff.mpr ⟨trivial, by simpa [children, parts] using ho⟩
  | cteName h => exact CteName.orderly_ofStrings h
  | cte _ _ materialized hc hn => exact orderly_iff.mpr ⟨trivial, by simp [children, parts, hc, hn]⟩
  | «with» _ isRecursive hc =>
      exact orderly_with.mpr ⟨List.cons_ne_nil _ _, List.forall_mem_singleton.mpr hc⟩
  | moreCtes _ _ hw hc => exact With.orderly_add hw hc
  | assignment _ _ hc hn => exact orderly_assignment.mpr ⟨hc, hn⟩
  | setValue h => exact Assignment.orderly_ofValue h
  | ignoring _ hc => exact OnConflict.orderly_ignoring hc
  | updating _ _ h hc ha => exact OnConflict.orderly_updating h hc ha
  | withConstraint _ h hc => exact OnConflict.orderly_withConstraint h hc
  | withCondition _ _ hc hn => exact OnConflict.orderly_withCondition hc hn
  | modifier m => exact orderly_leaf rfl trivial
  | select => exact Select.orderly_empty
  | selectFrom _ _ h hn hw => exact Select.orderly_ofItems h hn hw
  | selectCall c _ _ h hq hc => exact Select.Call.orderly_run h hq hc
  | insert _ _ ht hw => exact Insert.orderly_ofTable ht hw
  | insertCall c _ _ h hq hc => exact Insert.Call.orderly_run h hq hc
  | update _ _ hn hw => exact Update.orderly_ofTable hn hw
  | updateCall c _ _ h hq hc => exact Update.Call.orderly_run h hq hc
  | delete _ _ h hn hw => exact Delete.orderly_ofItems h hn hw
  | deleteCall c _ _ h hq hc => exact Delete.Call.orderly_run h hq hc
  | qualified _ hs h hn =>
      obtain ⟨hne, rfl⟩ := Identifier.ofString_eq_ok.mp hs
      rw [qualify_eq] at h
      cases h
      exact orderly_qualifying hne hn []
  | child _ hm hn => exact hn.child hm

theorem Built.sound {n : Node} (h : n.Built) : n.Sound := h.orderly.sound

/-- A tree that can be built is well formed at each of its nodes, and stays so when its tables are
put into a schema. Compiling it finds nothing wrong with its structure but an UPDATE without
assignments or an INSERT without a source of rows. -/
theorem Built.invariant {n : Node} (h : n.Built) :
    n.Sound ∧
    (∀ schema : Identifier, schema.name ≠ "" → ∃ m, n.qualify schema = .ok m ∧ m.Sound) ∧
    ∀ d k f, n.compile d = .error (.invalid k f) →
      ∃ m ∈ n.walk d, k = .updateQuery ∧ f = .noAssignment ∧ m.LacksAssignment ∨
        k = .insertQuery ∧ f = .noRowSource ∧ m.LacksRowSource :=
  ⟨h.sound, fun schema hs => ⟨_, n.qualify_eq schema, sound_qualifying hs h.sound []⟩,
    fun _ _ _ => h.sound.compile_eq_invalid⟩

/-- A query over the result of an UPDATE that assigns nothing. -/
def unassignedSample : Node :=
  .select
    { fromItems := some [.parens (.update
        { table := .table ⟨none, ⟨"t"⟩⟩
          whereClause := some (.binary (.column ⟨⟨"a"⟩⟩) .eq (.value (.int 1) false)) })] }

theorem Built.invariant_unassignedSample :
    unassignedSample.Built ∧ "s" ≠ "" ∧
    unassignedSample.compile Engine.postgres.dialect =
      .error (.invalid .updateQuery .noAssignment) ∧
    unassignedSample.Sound ∧
    (∃ m, unassignedSample.qualify ⟨"s"⟩ = .ok m ∧ m.Sound) ∧
    ∃ m ∈ unassignedSample.walk Engine.postgres.dialect, m.LacksAssignment := by
  have hp : (Node.binary (.column ⟨⟨"a"⟩⟩) .eq (.value (.int 1) false)).Built :=
    .binary (.column (s := "a") rfl) .eq (.value (.int 1) false)
  have hu : (Node.update
      { table := .table ⟨none, ⟨"t"⟩⟩
        whereClause := some (.binary (.column ⟨⟨"a"⟩⟩) .eq (.value (.int 1) false)) }).Built :=
    .updateCall (.row (.addWhere _)) (.update (.table (s := "t") rfl) (w := none) nofun)
      (List.forall_mem_singleton.mpr hp) rfl
  have hb : unassignedSample.Built :=
    .selectFrom (w := none) (List.forall_mem_singleton.mpr (.parens hu)) nofun rfl
  have hc : unassignedSample.compile Engine.postgres.dialect =
      .error (.invalid .updateQuery .noAssignment) := by cbv
  obtain ⟨hs, hq, he⟩ := invariant hb
  obtain ⟨m, hm, ⟨-, -, hl⟩ | ⟨hk, -⟩⟩ := he _ _ _ hc
  · exact ⟨hb, by decide, hc, hs, hq ⟨"s"⟩ (by decide), m, hm, hl⟩
  · cases hk

end Node

end SqlTree
