import SqlTree.Proofs.Building.Interleaving

/-! # Calls that add items

A call that adds a list of items to a clause writes them behind those that are there. So two such
calls are one call with both lists, and a call without items fails only where it would leave a
clause without any that must have some. -/

namespace SqlTree

open IsStatement

/-! ## Adding items to a slot -/

/-- The check of a clause that is never empty. -/
def Clause.itemClause? : Clause → Option ItemClause
  | .from => some .from
  | .using => some .using
  | .returning => some .returning
  | .output => some .output
  | .orderBy => some .orderBy
  | .groupBy => some .groupBy
  | _ => none

theorem ItemClause.items_eq_error {α : Type} {c : ItemClause} {xs : List α} {e : Error} :
    c.items xs = .error e ↔ xs = [] ∧ e = .invalid c.kind c.fault := by
  cases xs <;> simp [items, eq_comm]

namespace Statement

variable {σ α : Type} [IsStatement σ] {c : Clause} [HasSlot c σ (List α)] [Content c (List α)]
  [LawfulSlot c σ] {i : ItemClause} {xs : List α} {q r : σ} {e : Error}

theorem get_extend (h : extend c i xs q = .ok r) :
    HasSlot.get c r = some ((HasSlot.get c q).getD [] ++ xs) := by
  rw [extend] at h
  cases hg : (HasSlot.get c q : Option (List α)) with
  | some ys =>
      rw [hg] at h
      cases h
      exact LawfulSlot.get_set _ q
  | none =>
      rw [hg] at h
      obtain ⟨zs, hz, hr⟩ := bind_eq_ok.mp h
      obtain ⟨rfl, -⟩ := ItemClause.items_eq_ok hz
      cases hr
      exact LawfulSlot.get_set _ q

omit [IsStatement σ] [Content c (List α)] [LawfulSlot c σ] in
theorem extend_eq_error :
    extend c i xs q = .error e ↔
      HasSlot.get c q = none ∧ xs = [] ∧ e = .invalid i.kind i.fault := by
  rw [extend]
  cases hg : (HasSlot.get c q : Option (List α)) with
  | some ys => simp
  | none =>
      rw [← ItemClause.items_eq_error]
      cases i.items xs <;> simp [bind, Except.bind, pure, Except.pure]

omit [HasSlot c σ (List α)] [Content c (List α)] [LawfulSlot c σ] in
theorem get_addWith [HasSlot .with σ (With Node)] [LawfulSlot .with σ] {w : With Node} :
    HasSlot.get .with (addWith w q) =
      some ((HasSlot.get .with q).elim w fun v : With Node => v.merge w) := by
  rw [addWith, LawfulSlot.get_set]
  cases (HasSlot.get .with q : Option (With Node)) <;> rfl

end Statement

/-- A change that writes items behind those of a clause, leaves all other clauses alone, and fails
only where it would make an empty clause that must have items. -/
structure Adds {σ α : Type} [IsStatement σ] (c : Clause) (items : σ → Option (List α))
    (change : List α → σ → Except Error σ) : Prop where
  held_eq : ∀ {q r}, items q = items r → held q c = held r c
  frame : ∀ {xs q r k}, change xs q = .ok r → k ≠ c → held r k = held q k
  items_eq : ∀ {xs q r}, change xs q = .ok r → items r = some ((items q).getD [] ++ xs)
  eq_error : ∀ {xs q e}, change xs q = .error e ↔ ∃ i, c.itemClause? = some i ∧ items q = none ∧
    xs = [] ∧ e = .invalid i.kind i.fault

section Adding

variable {σ α : Type} [IsStatement σ] {c : Clause}

theorem adds_append [HasSlot c σ (List α)] [Content c (List α)] [LawfulSlot c σ]
    (hc : c.itemClause? = none) :
    Adds (σ := σ) (α := α) c (HasSlot.get c) fun xs q => .ok (Statement.append c xs q) where
  held_eq {q r} h := (LawfulSlot.held_eq_iff q r).mpr h
  frame {xs} := (touches_append xs).frame
  items_eq {xs q r} h := by
    cases h
    exact LawfulSlot.get_set _ q
  eq_error {xs q e} := by simp [hc]

theorem adds_extend [HasSlot c σ (List α)] [Content c (List α)] [LawfulSlot c σ] {i : ItemClause}
    (hc : c.itemClause? = some i) :
    Adds (σ := σ) (α := α) c (HasSlot.get c) fun xs q => Statement.extend c i xs q where
  held_eq {q r} h := (LawfulSlot.held_eq_iff q r).mpr h
  frame {xs} := (touches_extend i xs).frame
  items_eq := Statement.get_extend
  eq_error := by simp [hc, Statement.extend_eq_error]

/-- Two changes that succeed are one change with the items of both. -/
theorem Adds.append {items : σ → Option (List α)} {change : List α → σ → Except Error σ}
    (h : Adds c items change) {xs ys : List α} {q r s : σ} (hr : change xs q = .ok r)
    (hs : change ys r = .ok s) : change (xs ++ ys) q = .ok s := by
  cases ht : change (xs ++ ys) q with
  | error e =>
      -- Then the first change would have failed too.
      obtain ⟨i, hi, hq, hxs, -⟩ := h.eq_error.mp ht
      have he := h.eq_error.mpr ⟨i, hi, hq, (List.append_eq_nil_iff.mp hxs).1, rfl⟩
      rw [hr] at he
      cases he
  | ok t =>
      have hitems : items t = items s := by
        rw [h.items_eq ht, h.items_eq hs, h.items_eq hr, Option.getD_some, List.append_assoc]
      have hheld : held t = held s := by
        funext k
        by_cases hk : k = c
        · subst hk
          exact h.held_eq hitems
        · rw [h.frame ht hk, h.frame hs hk, h.frame hr hk]
      rw [held_injective hheld]

end Adding

/-! ## The calls with a list -/

/-- The calls that are given a list of items for a clause of a statement. -/
inductive ListCall : StatementKind → Type → Type
  | selectFrom : ListCall .select Node
  | selectSelections : ListCall .select Node
  | selectGroupBy : ListCall .select Node
  | selectOrderBy : ListCall .select (SortItem Node)
  | insertColumns : ListCall .insert Column
  | insertReturning : ListCall .insert Node
  | insertOutput : ListCall .insert Node
  | updateFrom : ListCall .update Node
  | updateSet : ListCall .update (Assignment Node)
  | updateReturning : ListCall .update Node
  | updateOutput : ListCall .update Node
  | updateOrderBy : ListCall .update (SortItem Node)
  | deleteUsing : ListCall .delete Node
  | deleteReturning : ListCall .delete Node
  | deleteOutput : ListCall .delete Node
  | deleteOrderBy : ListCall .delete (SortItem Node)

namespace ListCall

variable {k : StatementKind} {α : Type}

/-- The call with the items it is given. -/
def call : ListCall k α → List α → k.Call
  | .selectFrom => Select.Call.addFrom
  | .selectSelections => Select.Call.addSelections
  | .selectGroupBy => Select.Call.addGroupBy
  | .selectOrderBy => fun xs => Select.Call.row (.addOrderBy xs)
  | .insertColumns => Insert.Call.addColumns
  | .insertReturning => fun xs => Insert.Call.report (.addReturning xs)
  | .insertOutput => fun xs => Insert.Call.report (.addOutput xs)
  | .updateFrom => Update.Call.addFrom
  | .updateSet => Update.Call.addAssignments
  | .updateReturning => fun xs => Update.Call.report (.addReturning xs)
  | .updateOutput => fun xs => Update.Call.report (.addOutput xs)
  | .updateOrderBy => fun xs => Update.Call.row (.addOrderBy xs)
  | .deleteUsing => Delete.Call.addUsing
  | .deleteReturning => fun xs => Delete.Call.report (.addReturning xs)
  | .deleteOutput => fun xs => Delete.Call.report (.addOutput xs)
  | .deleteOrderBy => fun xs => Delete.Call.row (.addOrderBy xs)

/-- The clause that gets the items. -/
def clause : ListCall k α → Clause
  | .selectFrom | .updateFrom => .from
  | .selectSelections => .selections
  | .selectGroupBy => .groupBy
  | .selectOrderBy | .updateOrderBy | .deleteOrderBy => .orderBy
  | .insertColumns => .columns
  | .insertReturning | .updateReturning | .deleteReturning => .returning
  | .insertOutput | .updateOutput | .deleteOutput => .output
  | .updateSet => .set
  | .deleteUsing => .using

/-- The items a statement has for the clause, if it has the clause. -/
def items : ListCall k α → k.Statement → Option (List α)
  | .selectFrom | .updateFrom => fun q => held q .from
  | .selectSelections => fun q => held q .selections
  | .selectGroupBy => fun q => held q .groupBy
  | .selectOrderBy | .updateOrderBy | .deleteOrderBy => fun q => held q .orderBy
  | .insertColumns => fun q => held q .columns
  | .insertReturning | .updateReturning | .deleteReturning => fun q => held q .returning
  | .insertOutput | .updateOutput | .deleteOutput => fun q => held q .output
  | .updateSet => fun q => held q .set
  | .deleteUsing => fun q => held q .using

theorem adds (x : ListCall k α) :
    Adds x.clause x.items fun xs q => StatementKind.run q (x.call xs) := by
  cases x with
  | selectFrom => exact adds_extend (σ := Select Node) (c := .from) rfl
  | selectSelections => exact adds_append (σ := Select Node) (c := .selections) rfl
  | selectGroupBy => exact adds_extend (σ := Select Node) (c := .groupBy) rfl
  | selectOrderBy => exact adds_extend (σ := Select Node) (c := .orderBy) rfl
  | insertColumns => exact adds_append (σ := Insert Node) (c := .columns) rfl
  | insertReturning => exact adds_extend (σ := Insert Node) (c := .returning) rfl
  | insertOutput => exact adds_extend (σ := Insert Node) (c := .output) rfl
  | updateFrom => exact adds_extend (σ := Update Node) (c := .from) rfl
  | updateSet => exact adds_append (σ := Update Node) (c := .set) rfl
  | updateReturning => exact adds_extend (σ := Update Node) (c := .returning) rfl
  | updateOutput => exact adds_extend (σ := Update Node) (c := .output) rfl
  | updateOrderBy => exact adds_extend (σ := Update Node) (c := .orderBy) rfl
  | deleteUsing => exact adds_extend (σ := Delete Node) (c := .using) rfl
  | deleteReturning => exact adds_extend (σ := Delete Node) (c := .returning) rfl
  | deleteOutput => exact adds_extend (σ := Delete Node) (c := .output) rfl
  | deleteOrderBy => exact adds_extend (σ := Delete Node) (c := .orderBy) rfl

end ListCall

/-! ## WITH clauses -/

theorem With.merge_assoc (w x y : With Node) : (w.merge x).merge y = w.merge (x.merge y) := by
  simp only [merge, Bool.or_assoc, List.append_assoc]

namespace StatementKind

/-- The call that adds the expressions of a WITH clause. -/
def withCall : (k : StatementKind) → With Node → k.Call
  | .select => fun w => Select.Call.common (.addWith w)
  | .insert => fun w => Insert.Call.common (.addWith w)
  | .update => fun w => Update.Call.common (.addWith w)
  | .delete => fun w => Delete.Call.common (.addWith w)

/-- The WITH clause of a statement. -/
def withClause {k : StatementKind} (q : k.Statement) : Option (With Node) := held q .with

variable {k : StatementKind}

theorem exists_run_withCall (q : k.Statement) (w : With Node) :
    ∃ r, run q (k.withCall w) = .ok r ∧
      withClause r = some ((withClause q).elim w fun v => v.merge w) ∧
      ∀ c, c ≠ .with → held r c = held q c := by
  have hclause : clause (k.withCall w) = .with := by cases k <;> rfl
  obtain ⟨r, hr, hw⟩ : ∃ r, run q (k.withCall w) = .ok r ∧
      withClause r = some ((withClause q).elim w fun v => v.merge w) := by
    cases k with
    | select => exact ⟨_, rfl, Statement.get_addWith (σ := Select Node)⟩
    | insert => exact ⟨_, rfl, Statement.get_addWith (σ := Insert Node)⟩
    | update => exact ⟨_, rfl, Statement.get_addWith (σ := Update Node)⟩
    | delete => exact ⟨_, rfl, Statement.get_addWith (σ := Delete Node)⟩
  exact ⟨r, hr, hw, fun c hc => (touches (k.withCall w)).frame hr (hclause ▸ hc)⟩

/-- A WITH clause that is added after another is one with the expressions of both. -/
theorem run_withCall_merge {q r s : k.Statement} {w x : With Node}
    (h : run q (k.withCall w) = .ok r) (h' : run r (k.withCall x) = .ok s) :
    run q (k.withCall (w.merge x)) = .ok s := by
  obtain ⟨r', hr, hw, hf⟩ := exists_run_withCall q w
  obtain ⟨s', hs, hw', hf'⟩ := exists_run_withCall r x
  obtain ⟨t, ht, hwt, hft⟩ := exists_run_withCall q (w.merge x)
  rw [h, Except.ok.injEq] at hr
  rw [h', Except.ok.injEq] at hs
  subst hr hs
  have hwith : withClause t = withClause s := by
    rw [hwt, hw', hw]
    cases withClause q with
    | none => rfl
    | some v => simp only [Option.elim_some, With.merge_assoc]
  have hheld : held t = held s := by
    funext c
    by_cases hc : c = .with
    · subst hc
      exact hwith
    · rw [hft c hc, hf' c hc, hf c hc]
  rw [ht, held_injective hheld]

/-- What a WITH clause binds, in its order. -/
def expressions (q : k.Statement) : List (Cte Node) := (withClause q).elim [] With.ctes

/-- Whether there is a WITH clause that is recursive. -/
def isRecursive (q : k.Statement) : Bool := (withClause q).elim false With.isRecursive

theorem expressions_run {q r : k.Statement} {w : With Node} (h : run q (k.withCall w) = .ok r) :
    expressions r = expressions q ++ w.ctes ∧ isRecursive r = (isRecursive q || w.isRecursive) ∧
      ∀ c, c ≠ .with → held r c = held q c := by
  obtain ⟨r', hr, hw, hf⟩ := exists_run_withCall q w
  rw [h, Except.ok.injEq] at hr
  subst hr
  refine ⟨?_, ?_, hf⟩ <;> cases hq : withClause q <;>
    simp [expressions, isRecursive, hw, hq, With.merge]

/-- The calls that add to a list are homomorphisms: two that succeed are one with both lists, the
items of a call stand behind those that are there, nothing else changes, and a call fails exactly
where a clause that must have items would be made without any. The expressions of WITH clauses are
added in the same way, and the outcome is recursive if any of them is. -/
theorem run_listCall_homomorphism (k : StatementKind) (q : k.Statement) :
    (∀ {α : Type} (x : ListCall k α),
      (∀ xs ys r s, run q (x.call xs) = .ok r → run r (x.call ys) = .ok s →
        run q (x.call (xs ++ ys)) = .ok s) ∧
      (∀ xs r, run q (x.call xs) = .ok r → x.items r = some ((x.items q).getD [] ++ xs) ∧
        ∀ c, c ≠ x.clause → held r c = held q c) ∧
      ∀ xs e, run q (x.call xs) = .error e ↔ ∃ i, x.clause.itemClause? = some i ∧
        x.items q = none ∧ xs = [] ∧ e = .invalid i.kind i.fault) ∧
    ∀ w x y : With Node, (∃ r s, run q (k.withCall w) = .ok r ∧ run r (k.withCall x) = .ok s ∧
        run q (k.withCall (w.merge x)) = .ok s ∧
        expressions s = expressions q ++ w.ctes ++ x.ctes ∧
        isRecursive s = (isRecursive q || w.isRecursive || x.isRecursive) ∧
        ∀ c, c ≠ .with → held s c = held q c) ∧
      (w.merge x).merge y = w.merge (x.merge y) := by
  refine ⟨fun x => ⟨fun xs ys r s => x.adds.append, fun xs r h => ?_, fun xs e => x.adds.eq_error⟩,
    fun w x y => ⟨?_, With.merge_assoc w x y⟩⟩
  · exact ⟨x.adds.items_eq h, fun c => x.adds.frame h⟩
  · obtain ⟨r, hr, -⟩ := exists_run_withCall q w
    obtain ⟨s, hs, -⟩ := exists_run_withCall r x
    obtain ⟨hctes, hrec, hf⟩ := expressions_run hr
    obtain ⟨hctes', hrec', hf'⟩ := expressions_run hs
    refine ⟨r, s, hr, hs, run_withCall_merge hr hs, ?_, ?_, fun c hc => ?_⟩
    · rw [hctes', hctes]
    · rw [hrec', hrec]
    · rw [hf' c hc, hf c hc]

/-- A DELETE of the rows of one table, without a list of others. -/
def deleteSample : delete.Statement := ({ fromItems := [.table ⟨none, ⟨"t"⟩⟩] } : Delete Node)

theorem run_listCall_homomorphism_deleteSample :
    (∃ r, run deleteSample (ListCall.deleteUsing.call [.selectAll, .column ⟨⟨"a"⟩⟩]) = .ok r ∧
      ListCall.deleteUsing.items r = some [.selectAll, .column ⟨⟨"a"⟩⟩]) ∧
    run deleteSample (ListCall.deleteUsing.call []) = .error (.invalid .using .noTable) := by
  obtain ⟨happend, hitems, herror⟩ :=
    (run_listCall_homomorphism .delete deleteSample).1 ListCall.deleteUsing
  let r₁ : delete.Statement := { deleteSample with usingItems := some [.selectAll] }
  let r₂ : delete.Statement :=
    { deleteSample with usingItems := some [.selectAll, .column ⟨⟨"a"⟩⟩] }
  have h₂ : run deleteSample (ListCall.deleteUsing.call [.selectAll, .column ⟨⟨"a"⟩⟩]) = .ok r₂ :=
    happend [.selectAll] [.column ⟨⟨"a"⟩⟩] r₁ r₂ rfl rfl
  exact ⟨⟨r₂, h₂, (hitems _ _ h₂).1⟩, (herror _ _).mpr ⟨.using, rfl, rfl, rfl, rfl⟩⟩

end StatementKind
end SqlTree
