import SqlTree.Proofs.Building.Built

/-! # Calls of different clauses do not interfere

A call looks at what the statement holds for one clause, and changes nothing else. So what a
sequence of calls leaves for a clause depends on the calls of that clause alone, in their order, and
the calls of different clauses can be interleaved in any way. -/

namespace SqlTree

open IsStatement

/-! ## Changes of one clause -/

section Touching

variable {σ : Type} [IsStatement σ]

/-- A change that looks at what a statement holds for one clause, and changes nothing else. -/
structure Touches (c : Clause) (change : σ → Except Error σ) : Prop where
  frame : ∀ {q r : σ} {k : Clause}, change q = .ok r → k ≠ c → held r k = held q k
  congr : ∀ {q q' r : σ}, held q c = held q' c → change q = .ok r →
    ∃ r', change q' = .ok r' ∧ held r' c = held r c

variable {c : Clause} {α : Type} [HasSlot c σ α] [Content c α] [LawfulSlot c σ]

/-- Putting something in the place of what is held for a clause, whatever that was. -/
theorem touches_overwrite {c : Clause} (change : σ → σ)
    (frame : ∀ q k, k ≠ c → held (change q) k = held q k)
    (const : ∀ q q', held (change q) c = held (change q') c) :
    Touches c fun q => .ok (change q) where
  frame {q r k} h hk := by
    cases h
    exact frame q k hk
  congr {q q' r} _ h := by
    cases h
    exact ⟨_, rfl, const q' q⟩

/-- Writing back to a slot what is made of its content alone. -/
theorem touches_slot (f : Option α → Except Error (Option α)) :
    Touches c fun q : σ => (f (HasSlot.get c q)).map (HasSlot.set c · q) where
  frame {q r k} h hk := by
    cases hf : f (HasSlot.get c q) with
    | error e => simp [hf, Except.map] at h
    | ok x =>
        simp only [hf, Except.map, Except.ok.injEq] at h
        subst h
        exact LawfulSlot.held_set x q k hk
  congr {q q' r} hq h := by
    have hg : HasSlot.get c q = HasSlot.get c q' := (LawfulSlot.held_eq_iff q q').mp hq
    cases hf : f (HasSlot.get c q) with
    | error e => simp [hf, Except.map] at h
    | ok x =>
        simp only [hf, Except.map, Except.ok.injEq] at h
        subst h
        refine ⟨HasSlot.set c x q', by rw [← hg, hf]; rfl, ?_⟩
        rw [LawfulSlot.held_eq_iff, LawfulSlot.get_set, LawfulSlot.get_set]

theorem touches_clear : Touches c fun q : σ => .ok (Statement.clear c q) :=
  touches_slot fun _ => .ok none

theorem touches_put (a : α) : Touches c fun q : σ => .ok (Statement.put c a q) :=
  touches_slot fun _ => .ok (some a)

end Touching

section Slots

variable {σ α : Type} [IsStatement σ] {c : Clause}

theorem touches_append [HasSlot c σ (List α)] [Content c (List α)] [LawfulSlot c σ]
    (xs : List α) : Touches c fun q : σ => .ok (Statement.append c xs q) :=
  touches_slot fun ys => .ok (some (ys.getD [] ++ xs))

theorem touches_merge [HasSlot c σ Node] [Content c Node] [LawfulSlot c σ] (op : Connective)
    (p : Node) : Touches c fun q : σ => .ok (Statement.merge c op p q) :=
  touches_slot fun x => .ok (some (op.mergeOpt x p))

theorem touches_extend [HasSlot c σ (List α)] [Content c (List α)] [LawfulSlot c σ]
    (items : ItemClause) (xs : List α) : Touches c fun q : σ => Statement.extend c items xs q := by
  have h : (fun q : σ => Statement.extend c items xs q) = fun q =>
      Except.map (HasSlot.set c · q)
        ((HasSlot.get c q).elim ((items.items xs).map some) fun ys => .ok (some (ys ++ xs))) := by
    funext q
    cases hg : HasSlot.get c q with
    | some ys => simp [Statement.extend, hg, Except.map]
    | none => cases hi : items.items xs <;> simp [Statement.extend, hg, hi] <;> rfl
  rw [h]
  exact touches_slot fun x => x.elim ((items.items xs).map some) fun ys => .ok (some (ys ++ xs))

theorem touches_addWith [HasSlot .with σ (With Node)] [LawfulSlot .with σ] (w : With Node) :
    Touches .with fun q : σ => .ok (Statement.addWith w q) := by
  have h : (fun q : σ => (.ok (Statement.addWith w q) : Except Error σ)) = fun q =>
      Except.map (HasSlot.set Clause.with · q)
        (.ok (some ((HasSlot.get Clause.with q).elim w fun v => With.merge v w))) := by
    funext q
    cases hg : HasSlot.get Clause.with q <;> simp [Statement.addWith, hg, Except.map]
  rw [h]
  exact touches_slot fun x => .ok (some (x.elim w fun v => With.merge v w))

end Slots

/-! ## The clause of a call -/

/-- The clause that a call changes. -/
def CommonCall.clause : CommonCall → Clause
  | .addWith _ | .clearWith => .with
  | .putTop _ | .clearTop => .top
  | .putExplain _ | .clearExplain => .explain
  | .addEndModifier _ | .clearEndModifiers => .endModifiers

@[inherit_doc CommonCall.clause]
def RowCall.clause : RowCall → Clause
  | .addWhere _ | .orWhere _ | .clearWhere => .where
  | .addJoin _ | .clearJoins => .joins
  | .addOrderBy _ | .clearOrderBy => .orderBy
  | .putLimit _ | .clearLimit => .limit

@[inherit_doc CommonCall.clause]
def ReportCall.clause : ReportCall → Clause
  | .addReturning _ | .clearReturning => .returning
  | .addOutput _ | .clearOutput => .output

/-- The clause that a call changes; DISTINCT is a part of the keyword. -/
def Select.Call.clause : Select.Call → Clause
  | .common c => c.clause
  | .row c => c.clause
  | .addFrom _ => .from
  | .addSelections _ | .clearSelections => .selections
  | .setDistinct _ => .keyword
  | .addGroupBy _ | .clearGroupBy => .groupBy
  | .addHaving _ => .having
  | .putOffset _ | .clearOffset => .offset

/-- The clause that a call changes. The source of the rows and their defaults are one clause, and
what becomes of a row that conflicts is told by the keyword. -/
def Insert.Call.clause : Insert.Call → Clause
  | .common c => c.clause
  | .report c => c.clause
  | .addColumns _ => .columns
  | .setSource _ | .setDefaults => .values
  | .putOnConflict _ => .onConflict
  | .setIgnore _ => .keyword

@[inherit_doc CommonCall.clause]
def Update.Call.clause : Update.Call → Clause
  | .common c => c.clause
  | .row c => c.clause
  | .report c => c.clause
  | .addFrom _ => .from
  | .addAssignments _ => .set

@[inherit_doc CommonCall.clause]
def Delete.Call.clause : Delete.Call → Clause
  | .common c => c.clause
  | .row c => c.clause
  | .report c => c.clause
  | .addUsing _ => .using

section Calls

variable {σ : Type} [IsStatement σ]

theorem CommonCall.touches [HasSlot .with σ (With Node)] [HasSlot .top σ Top]
    [HasSlot .explain σ (Explain Node)] [HasSlot .endModifiers σ (List Node)] [LawfulSlot .with σ]
    [LawfulSlot .top σ] [LawfulSlot .explain σ] [LawfulSlot .endModifiers σ] (x : CommonCall) :
    Touches x.clause fun q : σ => .ok (x.run q) := by
  cases x with
  | addWith w => exact touches_addWith w
  | putTop t => exact touches_put (c := .top) t
  | putExplain e => exact touches_put (c := .explain) e
  | addEndModifier n => exact touches_append (c := .endModifiers) [n]
  | clearWith => exact touches_clear (c := .with)
  | clearTop => exact touches_clear (c := .top)
  | clearExplain => exact touches_clear (c := .explain)
  | clearEndModifiers => exact touches_clear (c := .endModifiers)

theorem RowCall.touches [HasSlot .where σ Node] [HasSlot .joins σ (List (Join Node))]
    [HasSlot .orderBy σ (List (SortItem Node))] [HasSlot .limit σ Node] [LawfulSlot .where σ]
    [LawfulSlot .joins σ] [LawfulSlot .orderBy σ] [LawfulSlot .limit σ] (x : RowCall) :
    Touches x.clause fun q : σ => x.run q := by
  cases x with
  | addWhere p => exact touches_merge (c := .where) .and p
  | orWhere p => exact touches_merge (c := .where) .or p
  | clearWhere => exact touches_clear (c := .where)
  | addJoin j => exact touches_append (c := .joins) [j]
  | clearJoins => exact touches_clear (c := .joins)
  | addOrderBy is => exact touches_extend (c := .orderBy) .orderBy is
  | clearOrderBy => exact touches_clear (c := .orderBy)
  | putLimit n => exact touches_put (c := .limit) n
  | clearLimit => exact touches_clear (c := .limit)

theorem ReportCall.touches [HasSlot .returning σ (List Node)] [HasSlot .output σ (List Node)]
    [LawfulSlot .returning σ] [LawfulSlot .output σ] (x : ReportCall) :
    Touches x.clause fun q : σ => x.run q := by
  cases x with
  | addReturning ns => exact touches_extend (c := .returning) .returning ns
  | clearReturning => exact touches_clear (c := .returning)
  | addOutput ns => exact touches_extend (c := .output) .output ns
  | clearOutput => exact touches_clear (c := .output)

end Calls

theorem Select.Call.touches (x : Select.Call) : Touches x.clause fun q => x.run q := by
  cases x with
  | common x => exact x.touches
  | row x => exact x.touches
  | addFrom ns => exact touches_extend (c := .from) .from ns
  | addSelections ns => exact touches_append (c := .selections) ns
  | clearSelections => exact touches_clear (c := .selections)
  | setDistinct b =>
      refine touches_overwrite (fun q : Select Node => { q with distinct := b }) ?_ fun _ _ => rfl
      intro q k hk
      cases k <;> first | exact absurd rfl hk | rfl
  | addGroupBy ns => exact touches_extend (c := .groupBy) .groupBy ns
  | clearGroupBy => exact touches_clear (c := .groupBy)
  | addHaving p => exact touches_merge (c := .having) .and p
  | putOffset n => exact touches_put (c := .offset) n
  | clearOffset => exact touches_clear (c := .offset)

theorem Insert.Call.touches (x : Insert.Call) : Touches x.clause fun q => x.run q := by
  cases x with
  | common x => exact x.touches
  | report x => exact x.touches
  | addColumns cs => exact touches_append (c := .columns) cs
  | setSource n =>
      refine touches_overwrite (fun q : Insert Node => q.withSource n) ?_ fun _ _ => rfl
      intro q k hk
      cases k <;> first | exact absurd rfl hk | rfl
  | setDefaults =>
      refine touches_overwrite Insert.withDefaults ?_ fun _ _ => rfl
      intro q k hk
      cases k <;> first | exact absurd rfl hk | rfl
  | putOnConflict x => exact touches_put (c := .onConflict) x
  | setIgnore b =>
      refine touches_overwrite (fun q : Insert Node => { q with ignore := b }) ?_ fun _ _ => rfl
      intro q k hk
      cases k <;> first | exact absurd rfl hk | rfl

theorem Update.Call.touches (x : Update.Call) : Touches x.clause fun q => x.run q := by
  cases x with
  | common x => exact x.touches
  | row x => exact x.touches
  | report x => exact x.touches
  | addFrom ns => exact touches_extend (c := .from) .from ns
  | addAssignments as => exact touches_append (c := .set) as

theorem Delete.Call.touches (x : Delete.Call) : Touches x.clause fun q => x.run q := by
  cases x with
  | common x => exact x.touches
  | row x => exact x.touches
  | report x => exact x.touches
  | addUsing ns => exact touches_extend (c := .using) .using ns

/-! ## Sequences of calls -/

/-- The statements of a kind. -/
def StatementKind.Statement : StatementKind → Type
  | .select => Select Node
  | .insert => Insert Node
  | .update => Update Node
  | .delete => Delete Node

/-- The calls that change a statement of a kind. -/
def StatementKind.Call : StatementKind → Type
  | .select => Select.Call
  | .insert => Insert.Call
  | .update => Update.Call
  | .delete => Delete.Call

namespace StatementKind

instance (k : StatementKind) : IsStatement k.Statement :=
  match k with
  | .select => inferInstanceAs (IsStatement (Select Node))
  | .insert => inferInstanceAs (IsStatement (Insert Node))
  | .update => inferInstanceAs (IsStatement (Update Node))
  | .delete => inferInstanceAs (IsStatement (Delete Node))

variable {k : StatementKind}

/-- The statement a call makes. -/
def run : {k : StatementKind} → k.Statement → k.Call → Except Error k.Statement
  | .select => Select.Call.run
  | .insert => Insert.Call.run
  | .update => Update.Call.run
  | .delete => Delete.Call.run

/-- The clause that a call changes. -/
def clause : {k : StatementKind} → k.Call → Clause
  | .select => Select.Call.clause
  | .insert => Insert.Call.clause
  | .update => Update.Call.clause
  | .delete => Delete.Call.clause

/-- The calls of a clause, in their order. -/
def own (c : Clause) (xs : List k.Call) : List k.Call := xs.filter fun x => clause x = c

/-- The calls that decide what is left for a clause: of those that say where the rows of an INSERT
come from the last one, and of any other clause all of them. -/
def deciding (c : Clause) (xs : List k.Call) : List k.Call :=
  if c = .values then (own c xs).getLast?.toList else own c xs

/-- Calls one after another succeed, and something is left for a clause. -/
def Leaves (c : Clause) (xs : List k.Call) (q : k.Statement) (v : c.Held) : Prop :=
  ∃ r, xs.foldlM run q = .ok r ∧ held r c = v

theorem touches (x : k.Call) : Touches (clause x) fun q => run q x := by
  cases k with
  | select => exact Select.Call.touches x
  | insert => exact Insert.Call.touches x
  | update => exact Update.Call.touches x
  | delete => exact Delete.Call.touches x

/-- A call that says where the rows come from succeeds, and does so whatever was said before. -/
theorem exists_run_of_values {x : k.Call} (hx : clause x = .values) (q q' : k.Statement) :
    ∃ r r', run q x = .ok r ∧ run q' x = .ok r' ∧ held r .values = held r' .values := by
  cases k with
  | insert =>
      cases x with
      | common x => cases x <;> cases hx
      | report x => cases x <;> cases hx
      | setSource n => exact ⟨_, _, rfl, rfl, rfl⟩
      | setDefaults => exact ⟨_, _, rfl, rfl, rfl⟩
      | addColumns cs | putOnConflict c | setIgnore b => cases hx
  | select | update | delete =>
      cases x <;> first | cases hx | (rename_i x; cases x <;> cases hx)

/-! ### A run, clause by clause -/

variable {q q' r : k.Statement} {x : k.Call} {xs ys : List k.Call} {c : Clause} {v : c.Held}

theorem foldlM_cons_eq_ok :
    (x :: xs).foldlM run q = .ok r ↔ ∃ q', run q x = .ok q' ∧ xs.foldlM run q' = .ok r := by
  rw [List.foldlM_cons, bind_eq_ok]

/-- What a run leaves for a clause is what the calls of the clause leave for it. -/
theorem leaves_own (hq : held q c = held q' c) (h : xs.foldlM run q = .ok r) :
    Leaves c (own c xs) q' (held r c) := by
  induction xs generalizing q q' with
  | nil =>
      cases h
      exact ⟨q', rfl, hq.symm⟩
  | cons x xs ih =>
      obtain ⟨q₁, hx, h⟩ := foldlM_cons_eq_ok.mp h
      by_cases hc : clause x = c
      · subst hc
        obtain ⟨q₂, hx', hq'⟩ := (touches x).congr hq hx
        obtain ⟨r', hr, hv⟩ := ih hq'.symm h
        have ho : own (clause x) (x :: xs) = x :: own (clause x) xs := by simp [own]
        exact ⟨r', by rw [ho, foldlM_cons_eq_ok]; exact ⟨q₂, hx', hr⟩, hv⟩
      · have hf : held q₁ c = held q c := (touches x).frame hx (Ne.symm hc)
        have ho : own c (x :: xs) = own c xs := by simp [own, hc]
        rw [ho]
        exact ih (hf.trans hq) h

/-- A run succeeds if the calls of every clause do. -/
theorem exists_foldlM (h : ∀ c, ∃ r, (own c xs).foldlM run q = .ok r) :
    ∃ r, xs.foldlM run q = .ok r := by
  induction xs generalizing q with
  | nil => exact ⟨q, rfl⟩
  | cons x xs ih =>
      have hx : own (clause x) (x :: xs) = x :: own (clause x) xs := by simp [own]
      obtain ⟨r₁, h₁⟩ := h (clause x)
      rw [hx] at h₁
      obtain ⟨q₁, hq₁, h₁⟩ := foldlM_cons_eq_ok.mp h₁
      have hrest : ∀ c, ∃ r, (own c xs).foldlM run q₁ = .ok r := by
        intro c
        by_cases hc : clause x = c
        · exact hc ▸ ⟨r₁, h₁⟩
        · have hf : held q₁ c = held q c := (touches x).frame hq₁ (Ne.symm hc)
          have ho : own c (x :: xs) = own c xs := by simp [own, hc]
          obtain ⟨r₂, h₂⟩ := h c
          rw [ho] at h₂
          -- The calls of `c` do not see the call before them, so they run from `q₁` as from `q`.
          obtain ⟨r₃, h₃, -⟩ := leaves_own hf.symm h₂
          have hi : own c (own c xs) = own c xs := by simp [own]
          exact ⟨r₃, hi ▸ h₃⟩
      obtain ⟨r, hr⟩ := ih hrest
      exact ⟨r, foldlM_cons_eq_ok.mpr ⟨q₁, hq₁, hr⟩⟩

theorem exists_foldlM_of_values (h : ∀ x ∈ xs, clause x = .values) :
    ∃ r, xs.foldlM run q = .ok r := by
  induction xs generalizing q with
  | nil => exact ⟨q, rfl⟩
  | cons x xs ih =>
      rw [List.forall_mem_cons] at h
      obtain ⟨q₁, -, hx, -⟩ := exists_run_of_values h.1 q q
      obtain ⟨r, hr⟩ := ih h.2
      exact ⟨r, foldlM_cons_eq_ok.mpr ⟨q₁, hx, hr⟩⟩

/-- Of the calls that say where the rows come from only the last one matters. -/
theorem leaves_concat {v : Clause.Held .values} (hx : clause x = .values)
    (h : ∀ y ∈ xs, clause y = .values) :
    Leaves .values (xs ++ [x]) q v ↔ Leaves .values [x] q v := by
  obtain ⟨q₁, hq₁⟩ := exists_foldlM_of_values h
  obtain ⟨r, r', hr, hr', hv⟩ := exists_run_of_values hx q₁ q
  have hs : (xs ++ [x]).foldlM run q = .ok r := by
    rw [List.foldlM_append, hq₁]
    exact foldlM_cons_eq_ok.mpr ⟨r, hr, rfl⟩
  have ho : [x].foldlM run q = .ok r' := foldlM_cons_eq_ok.mpr ⟨r', hr', rfl⟩
  simp only [Leaves, hs, ho, Except.ok.injEq, exists_eq_left', hv]

theorem leaves_deciding : Leaves c (deciding c xs) q v ↔ Leaves c (own c xs) q v := by
  by_cases hc : c = .values
  · subst hc
    rw [deciding, if_pos rfl]
    have hmem : ∀ y ∈ own .values xs, clause y = .values := by
      intro y hy
      simpa using (List.mem_filter.mp hy).2
    rcases List.eq_nil_or_concat (own .values xs) with h | ⟨zs, z, h⟩
    · rw [h]
      rfl
    · rw [h] at hmem ⊢
      rw [List.concat_eq_append] at hmem ⊢
      rw [List.forall_mem_append, List.forall_mem_singleton] at hmem
      rw [List.getLast?_concat, Option.toList_some]
      exact (leaves_concat hmem.2 hmem.1).symm
  · rw [deciding, if_neg hc]

theorem foldlM_of_deciding_eq (h : ∀ c, deciding c xs = deciding c ys)
    (hr : xs.foldlM run q = .ok r) : ys.foldlM run q = .ok r := by
  have hown (c : Clause) : Leaves c (own c ys) q (held r c) := by
    rw [← leaves_deciding, ← h c, leaves_deciding]
    exact leaves_own rfl hr
  obtain ⟨s, hs⟩ : ∃ s, ys.foldlM run q = .ok s := exists_foldlM fun c => by
    obtain ⟨t, ht, -⟩ := hown c
    exact ⟨t, ht⟩
  have hheld : held s = held r := by
    funext c
    obtain ⟨t, ht, hv⟩ := hown c
    obtain ⟨t', ht', hv'⟩ := leaves_own (c := c) rfl hs
    rw [ht, Except.ok.injEq] at ht'
    rw [← hv', ← ht', hv]
  rw [hs, held_injective hheld]

/-- Two sequences of calls with the same calls for every clause, in the same order, succeed on the
same statements and make the same of them. Of the calls that say where the rows of an INSERT come
from only the last one needs to be the same. -/
theorem foldlM_run_eq_ok_iff (k : StatementKind) (q r : k.Statement) (xs ys : List k.Call)
    (h : ∀ c, deciding c xs = deciding c ys) :
    xs.foldlM run q = .ok r ↔ ys.foldlM run q = .ok r :=
  ⟨foldlM_of_deciding_eq h, foldlM_of_deciding_eq fun c => (h c).symm⟩

/-- An INSERT with nothing but its table. -/
def insertSample : insert.Statement := Insert.ofTable ⟨none, ⟨"t"⟩⟩ none

/-- Calls that go back and forth between the clauses. -/
def scatteredSample : List insert.Call :=
  [.addColumns [⟨⟨"a"⟩⟩], .setDefaults, .report (.addReturning [.selectAll]),
   .addColumns [⟨⟨"b"⟩⟩], .setSource (.select {}), .common .clearTop,
   .report (.addReturning [.column ⟨⟨"a"⟩⟩]), .setIgnore true]

/-- The same calls clause by clause, with another source of the rows before the last one. -/
def sortedSample : List insert.Call :=
  [.setIgnore true, .common .clearTop, .report (.addReturning [.selectAll]),
   .report (.addReturning [.column ⟨⟨"a"⟩⟩]), .setSource (.values [[.value .null false]]),
   .setSource (.select {}), .addColumns [⟨⟨"a"⟩⟩], .addColumns [⟨⟨"b"⟩⟩]]

theorem foldlM_run_eq_ok_iff_insertSample :
    (∀ c, deciding c scatteredSample = deciding c sortedSample) ∧
    ∃ r, scatteredSample.foldlM run insertSample = .ok r ∧
      sortedSample.foldlM run insertSample = .ok r := by
  have h (c : Clause) : deciding c scatteredSample = deciding c sortedSample := by
    cases c <;> rfl
  let r : insert.Statement := Insert.mk ⟨none, ⟨"t"⟩⟩ (some [⟨⟨"a"⟩⟩, ⟨⟨"b"⟩⟩])
    (some (.select {})) false true none (some [.selectAll, .column ⟨⟨"a"⟩⟩]) none none none none
    none
  exact ⟨h, r, rfl, (foldlM_run_eq_ok_iff .insert insertSample r _ _ h).mp rfl⟩

end StatementKind

end SqlTree
