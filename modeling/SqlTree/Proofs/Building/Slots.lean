import SqlTree.Proofs.Building.Calls
import SqlTree.Proofs.Building.Held
import SqlTree.Proofs.Building.WellFormed

/-! # Slots of orderly statements

Setting a slot changes the parts of its clause and nothing else, so a change keeps a statement
orderly if what it puts into the slot is orderly. This is shown once for each way of changing a
slot and holds of every call. -/

namespace SqlTree

/-! ## Statements and their slots -/

/-- The node of a statement, the nodes of its clauses, and what it holds for each of them. -/
class IsStatement (σ : Type) where
  node : σ → Node
  clauseParts : σ → Clause → List Node
  children_node : ∀ q, (node q).children = (Named.all : List Clause).flatMap (clauseParts q)
  held : σ → (c : Clause) → c.Held
  held_injective : Function.Injective held

instance : IsStatement (Select Node) :=
  ⟨.select, Select.clauseParts, fun _ => rfl, Select.held, Select.held_injective⟩
instance : IsStatement (Insert Node) :=
  ⟨.insert, Insert.clauseParts, fun _ => rfl, Insert.held, Insert.held_injective⟩
instance : IsStatement (Update Node) :=
  ⟨.update, Update.clauseParts, fun _ => rfl, Update.held, Update.held_injective⟩
instance : IsStatement (Delete Node) :=
  ⟨.delete, Delete.clauseParts, fun _ => rfl, Delete.held, Delete.held_injective⟩

/-- The nodes of a clause whose slot holds an `α`. -/
class Content (c : Clause) (α : Type) where
  parts : Option α → List Node
  parts_none : parts none = []

instance : Content .with (With Node) := ⟨fun x => x.toList.map .with, rfl⟩
instance : Content .top Top := ⟨fun x => x.toList.map .top, rfl⟩
instance : Content .explain (Explain Node) := ⟨fun x => x.toList.map .explain, rfl⟩
instance : Content .endModifiers (List Node) := ⟨fun x => x.getD [], rfl⟩
instance : Content .where Node := ⟨fun x => x.toList.map .where, rfl⟩
instance : Content .joins (List (Join Node)) := ⟨fun x => (x.getD []).map .join, rfl⟩
instance : Content .orderBy (List (SortItem Node)) := ⟨fun x => x.toList.map .orderBy, rfl⟩
instance : Content .limit Node := ⟨fun x => x.toList.map .limit, rfl⟩
instance : Content .from (List Node) := ⟨fun x => x.toList.map .from, rfl⟩
instance : Content .selections (List Node) := ⟨fun x => (x.getD []).map .selection, rfl⟩
instance : Content .groupBy (List Node) := ⟨fun x => x.toList.map .groupBy, rfl⟩
instance : Content .having Node := ⟨fun x => x.toList.map .having, rfl⟩
instance : Content .offset Node := ⟨fun x => x.toList.map .offset, rfl⟩
instance : Content .returning (List Node) := ⟨fun x => x.toList.map .returning, rfl⟩
instance : Content .output (List Node) := ⟨fun x => x.toList.map .output, rfl⟩
instance : Content .columns (List Column) := ⟨fun x => (x.getD []).map .column, rfl⟩
instance : Content .onConflict (OnConflict Node) := ⟨fun x => x.toList.map .onConflict, rfl⟩
instance : Content .set (List (Assignment Node)) := ⟨fun x => (x.getD []).map .assignment, rfl⟩
instance : Content .using (List Node) := ⟨fun x => x.toList.map .using, rfl⟩

open IsStatement

/-- A slot that holds what its clause is written with, and nothing else. -/
class LawfulSlot (c : Clause) (σ : Type) {α : outParam Type} [IsStatement σ] [HasSlot c σ α]
    [Content c α] : Prop where
  parts_get : ∀ q : σ, clauseParts q c = Content.parts c (HasSlot.get c q) := by
    intro q
    rfl
  parts_set : ∀ (x : Option α) (q : σ), clauseParts (HasSlot.set c x q) =
      Function.update (clauseParts q) c (Content.parts c x) := by
    intro x q
    funext k
    cases k <;> rfl
  regular_set : ∀ (x : Option α) (q : σ), (node q).Regular →
      (node (HasSlot.set c x q)).Regular := by
    intro x q h
    exact h
  get_set : ∀ (x : Option α) (q : σ), HasSlot.get c (HasSlot.set c x q) = x := by
    intro x q
    rfl
  held_eq_iff : ∀ q r : σ, held q c = held r c ↔ HasSlot.get c q = HasSlot.get c r := by
    intro q r
    exact Iff.rfl
  held_set : ∀ (x : Option α) (q : σ) (k : Clause), k ≠ c →
      held (HasSlot.set c x q) k = held q k := by
    intro x q k hk
    cases k <;> first | exact absurd rfl hk | rfl

instance : LawfulSlot .with (Select Node) := {}
instance : LawfulSlot .top (Select Node) := {}
instance : LawfulSlot .explain (Select Node) := {}
instance : LawfulSlot .endModifiers (Select Node) := {}
instance : LawfulSlot .where (Select Node) := {}
instance : LawfulSlot .joins (Select Node) := {}
instance : LawfulSlot .orderBy (Select Node) := {}
instance : LawfulSlot .limit (Select Node) := {}
instance : LawfulSlot .from (Select Node) := {}
instance : LawfulSlot .selections (Select Node) := {}
instance : LawfulSlot .groupBy (Select Node) := {}
instance : LawfulSlot .having (Select Node) := {}
instance : LawfulSlot .offset (Select Node) := {}

instance : LawfulSlot .with (Insert Node) := {}
instance : LawfulSlot .top (Insert Node) := {}
instance : LawfulSlot .explain (Insert Node) := {}
instance : LawfulSlot .endModifiers (Insert Node) := {}
instance : LawfulSlot .returning (Insert Node) := {}
instance : LawfulSlot .output (Insert Node) := {}
instance : LawfulSlot .columns (Insert Node) := {}
instance : LawfulSlot .onConflict (Insert Node) := {}

instance : LawfulSlot .with (Update Node) := {}
instance : LawfulSlot .top (Update Node) := {}
instance : LawfulSlot .explain (Update Node) := {}
instance : LawfulSlot .endModifiers (Update Node) := {}
instance : LawfulSlot .where (Update Node) := {}
instance : LawfulSlot .joins (Update Node) := {}
instance : LawfulSlot .orderBy (Update Node) := {}
instance : LawfulSlot .limit (Update Node) := {}
instance : LawfulSlot .returning (Update Node) := {}
instance : LawfulSlot .output (Update Node) := {}
instance : LawfulSlot .from (Update Node) := {}
instance : LawfulSlot .set (Update Node) := {}

instance : LawfulSlot .with (Delete Node) := {}
instance : LawfulSlot .top (Delete Node) := {}
instance : LawfulSlot .explain (Delete Node) := {}
instance : LawfulSlot .endModifiers (Delete Node) := {}
instance : LawfulSlot .where (Delete Node) := {}
instance : LawfulSlot .joins (Delete Node) := {}
instance : LawfulSlot .orderBy (Delete Node) := {}
instance : LawfulSlot .limit (Delete Node) := {}
instance : LawfulSlot .returning (Delete Node) := {}
instance : LawfulSlot .output (Delete Node) := {}
instance : LawfulSlot .using (Delete Node) := {}

section Slots

variable {σ : Type} [IsStatement σ]

theorem IsStatement.orderly_node {q : σ} :
    (node q).Orderly ↔ (node q).Regular ∧ ∀ c, ∀ m ∈ clauseParts q c, m.Orderly := by
  rw [Node.orderly_iff, children_node, List.forall_mem_flatMap]
  exact and_congr_right fun _ => ⟨fun h c => h c c.mem_all, fun h c _ => h c⟩

/-- A statement stays orderly when the parts of one clause are exchanged for orderly ones. -/
theorem IsStatement.orderly_update {q r : σ} {c : Clause} {ns : List Node}
    (hp : clauseParts r = Function.update (clauseParts q) c ns) (hr : (node r).Regular)
    (hq : (node q).Orderly) (hn : ∀ m ∈ ns, m.Orderly) : (node r).Orderly := by
  refine orderly_node.mpr ⟨hr, fun k m hm => ?_⟩
  rw [hp] at hm
  by_cases hk : k = c
  · subst hk
    rw [Function.update_self] at hm
    exact hn m hm
  · rw [Function.update_of_ne hk] at hm
    exact (orderly_node.mp hq).2 k m hm

variable {c : Clause} {α : Type} [HasSlot c σ α] [Content c α] [LawfulSlot c σ] {q : σ}

theorem LawfulSlot.orderly_set {x : Option α} (hq : (node q).Orderly)
    (hx : ∀ m ∈ Content.parts c x, m.Orderly) : (node (HasSlot.set c x q)).Orderly :=
  orderly_update (parts_set x q) (regular_set x q hq.regular) hq hx

theorem LawfulSlot.orderly_get (hq : (node q).Orderly) :
    ∀ m ∈ Content.parts c (HasSlot.get c q), m.Orderly := by
  rw [← parts_get]
  exact (orderly_node.mp hq).2 c

end Slots

/-! ## Lists of items and merged predicates -/

/-- The clauses that are lists of items, with the type of what they hold for each item. -/
inductive ListKind : Type → Type
  | from : ListKind Node
  | using : ListKind Node
  | returning : ListKind Node
  | output : ListKind Node
  | orderBy : ListKind (SortItem Node)
  | groupBy : ListKind Node
  | valueList : ListKind Node
  | values : ListKind (List Node)

namespace ListKind

variable {α : Type}

/-- The check that there are items. -/
def check : ListKind α → ItemClause
  | .from => .from
  | .using => .using
  | .returning => .returning
  | .output => .output
  | .orderBy => .orderBy
  | .groupBy => .groupBy
  | .valueList => .valueList
  | .values => .values

/-- The node of a list of items. -/
def node : ListKind α → List α → Node
  | .from => .from
  | .using => .using
  | .returning => .returning
  | .output => .output
  | .orderBy => .orderBy
  | .groupBy => .groupBy
  | .valueList => .valueList
  | .values => .values

/-- The node of an item. -/
def item : ListKind α → α → Node
  | .from | .using | .output | .groupBy | .valueList => id
  | .returning => .selection
  | .orderBy => .orderByItem
  | .values => .valueList

theorem orderly_node (k : ListKind α) {xs : List α} :
    (k.node xs).Orderly ↔ xs ≠ [] ∧ ∀ x ∈ xs, (k.item x).Orderly := by
  rw [Node.orderly_iff]
  cases k <;> simp [node, item, Node.children, Node.parts]

theorem orderly_append (k : ListKind α) {xs ys : List α} (hx : (k.node xs).Orderly)
    (hy : ∀ y ∈ ys, (k.item y).Orderly) : (k.node (xs ++ ys)).Orderly := by
  rw [orderly_node] at hx ⊢
  exact ⟨List.append_ne_nil_of_left_ne_nil hx.1 ys, List.forall_mem_append.mpr ⟨hx.2, hy⟩⟩

end ListKind

theorem ItemClause.items_eq_ok {α : Type} {c : ItemClause} {xs ys : List α}
    (h : c.items xs = .ok ys) : ys = xs ∧ xs ≠ [] := by
  rw [items] at h
  split at h
  · cases h
  · cases h
    exact ⟨rfl, by simp_all⟩

theorem ListKind.orderly_items {α : Type} (k : ListKind α) {xs ys : List α}
    (h : k.check.items xs = .ok ys) (hx : ∀ x ∈ xs, (k.item x).Orderly) : (k.node ys).Orderly := by
  obtain ⟨rfl, hne⟩ := ItemClause.items_eq_ok h
  exact k.orderly_node.mpr ⟨hne, hx⟩

/-- A node around a single one is orderly if that one is. -/
theorem Node.orderly_around {n m : Node} (hc : n.children = [m]) (hn : n.Regular) :
    n.Orderly ↔ m.Orderly := by
  rw [orderly_iff, hc, List.forall_mem_singleton]
  exact and_iff_right hn

theorem Connective.orderly_merge {op : Connective} {p q : Node} (hp : p.Orderly) (hq : q.Orderly) :
    (op.merge p q).Orderly := by
  rw [Node.orderly_iff]
  cases op <;> simp [merge, Node.children, Node.parts, hp, hq]

theorem Connective.orderly_mergeOpt {op : Connective} {p : Option Node} {q : Node}
    (hp : ∀ x ∈ p, x.Orderly) (hq : q.Orderly) : (op.mergeOpt p q).Orderly := by
  cases p with
  | none => exact hq
  | some p => exact orderly_merge (hp p rfl) hq

theorem Node.orderly_with {w : With Node} :
    (Node.with w).Orderly ↔ w.ctes ≠ [] ∧ ∀ c ∈ w.ctes, (Node.cte c).Orderly := by
  rw [orderly_iff]
  simp [children, parts]

theorem With.orderly_merge {w x : With Node} (hw : (Node.with w).Orderly)
    (hx : (Node.with x).Orderly) : (Node.with (w.merge x)).Orderly := by
  rw [Node.orderly_with] at hw hx ⊢
  exact ⟨List.append_ne_nil_of_left_ne_nil hw.1 _, List.forall_mem_append.mpr ⟨hw.2, hx.2⟩⟩

theorem With.orderly_add {w : With Node} {c : Cte Node} (hw : (Node.with w).Orderly)
    (hc : (Node.cte c).Orderly) : (Node.with (w.add c)).Orderly := by
  rw [Node.orderly_with] at hw ⊢
  exact ⟨List.append_ne_nil_of_left_ne_nil hw.1 _,
    List.forall_mem_append.mpr ⟨hw.2, List.forall_mem_singleton.mpr hc⟩⟩

/-! ## Ways of changing a slot -/

namespace Statement

variable {σ : Type} [IsStatement σ] {c : Clause} {q r : σ}

section Slot

variable {α : Type} [HasSlot c σ α] [Content c α] [LawfulSlot c σ]

theorem orderly_clear (hq : (node q).Orderly) : (node (clear c q)).Orderly :=
  LawfulSlot.orderly_set hq (by simp [Content.parts_none])

theorem orderly_put {a : α} (hq : (node q).Orderly)
    (ha : ∀ m ∈ Content.parts c (some a), m.Orderly) : (node (put c a q)).Orderly :=
  LawfulSlot.orderly_set hq ha

end Slot

section List

variable {α : Type} [HasSlot c σ (List α)] [Content c (List α)] [LawfulSlot c σ]

theorem orderly_append {f : α → Node} {xs : List α}
    (hc : ∀ ys : Option (List α), Content.parts c ys = (ys.getD []).map f) (hq : (node q).Orderly)
    (hx : ∀ x ∈ xs, (f x).Orderly) : (node (append c xs q)).Orderly := by
  have hy := LawfulSlot.orderly_get (c := c) hq
  refine LawfulSlot.orderly_set hq ?_
  rw [hc] at hy ⊢
  rw [Option.getD_some, List.map_append, List.forall_mem_append]
  exact ⟨hy, List.forall_mem_map.mpr hx⟩

/-- A list of items that is extended stays orderly; a new one has items. -/
theorem orderly_extend (k : ListKind α) {xs : List α}
    (hc : ∀ ys : Option (List α), Content.parts c ys = ys.toList.map k.node)
    (h : extend c k.check xs q = .ok r) (hq : (node q).Orderly)
    (hx : ∀ x ∈ xs, (k.item x).Orderly) : (node r).Orderly := by
  have hy := LawfulSlot.orderly_get (c := c) hq
  rw [hc] at hy
  rw [extend] at h
  cases hg : (HasSlot.get c q : Option (List α)) with
  | none =>
      rw [hg] at h
      cases hi : k.check.items xs with
      | error e => simp [hi, bind, Except.bind] at h
      | ok ys =>
          simp only [hi, bind, Except.bind, pure, Except.pure, Except.ok.injEq] at h
          subst h
          refine LawfulSlot.orderly_set hq ?_
          rw [hc]
          simpa using k.orderly_items hi hx
  | some ys =>
      rw [hg] at h hy
      cases h
      refine LawfulSlot.orderly_set hq ?_
      rw [hc]
      simpa using k.orderly_append (by simpa using hy) hx

end List

/-- A predicate that is merged into an orderly one. -/
theorem orderly_mergeInto [HasSlot c σ Node] [Content c Node] [LawfulSlot c σ] {op : Connective}
    {f : Node → Node} {p : Node} (hc : ∀ x : Option Node, Content.parts c x = x.toList.map f)
    (hf : ∀ n, (f n).Orderly ↔ n.Orderly) (hq : (node q).Orderly) (hp : p.Orderly) :
    (node (merge c op p q)).Orderly := by
  have hy := LawfulSlot.orderly_get (c := c) hq
  refine LawfulSlot.orderly_set hq ?_
  simp only [hc, List.forall_mem_map, Option.mem_toList, hf] at hy ⊢
  rintro _ ⟨⟩
  exact Connective.orderly_mergeOpt hy hp

theorem orderly_addWith [HasSlot .with σ (With Node)] [LawfulSlot .with σ] {w : With Node}
    (hq : (node q).Orderly) (hw : (Node.with w).Orderly) : (node (addWith w q)).Orderly := by
  have hy := LawfulSlot.orderly_get (c := .with) hq
  rw [addWith]
  refine LawfulSlot.orderly_set hq ?_
  cases hg : (HasSlot.get .with q : Option (With Node)) with
  | none => simpa [Content.parts] using hw
  | some v =>
      rw [hg] at hy
      simpa [Content.parts] using With.orderly_merge (by simpa [Content.parts] using hy) hw

end Statement

/-! ## Calls -/

open Statement

section Calls

variable {σ : Type} [IsStatement σ] {q r : σ}

theorem CommonCall.orderly_run [HasSlot .with σ (With Node)] [HasSlot .top σ Top]
    [HasSlot .explain σ (Explain Node)] [HasSlot .endModifiers σ (List Node)]
    [LawfulSlot .with σ] [LawfulSlot .top σ] [LawfulSlot .explain σ] [LawfulSlot .endModifiers σ]
    (c : CommonCall) (hq : (node q).Orderly) (hc : ∀ m ∈ c.arguments, m.Orderly) :
    (node (c.run q)).Orderly := by
  cases c with
  | addWith w => exact orderly_addWith hq (by simpa [arguments] using hc)
  | putTop t => exact orderly_put hq hc
  | putExplain x => exact orderly_put hq hc
  | addEndModifier n =>
      exact orderly_append (f := id) (fun ns => (List.map_id _).symm) hq hc
  | clearWith | clearTop | clearExplain | clearEndModifiers => exact orderly_clear hq

theorem RowCall.orderly_run [HasSlot .where σ Node] [HasSlot .joins σ (List (Join Node))]
    [HasSlot .orderBy σ (List (SortItem Node))] [HasSlot .limit σ Node] [LawfulSlot .where σ]
    [LawfulSlot .joins σ] [LawfulSlot .orderBy σ] [LawfulSlot .limit σ] {c : RowCall}
    (h : c.run q = .ok r) (hq : (node q).Orderly) (hc : ∀ m ∈ c.arguments, m.Orderly) :
    (node r).Orderly := by
  have hw (n : Node) : (Node.where n).Orderly ↔ n.Orderly := Node.orderly_around rfl trivial
  cases c with
  | addOrderBy is =>
      exact orderly_extend .orderBy (fun _ => rfl) h hq (List.forall_mem_map.mp hc)
  | addWhere p | orWhere p =>
      cases h
      exact orderly_mergeInto (fun _ => rfl) hw hq (by simpa [arguments] using hc)
  | addJoin j =>
      cases h
      exact orderly_append (fun _ => rfl) hq (by simpa [arguments] using hc)
  | putLimit n =>
      cases h
      exact orderly_put hq hc
  | clearWhere | clearJoins | clearOrderBy | clearLimit =>
      cases h
      exact orderly_clear hq

theorem ReportCall.orderly_run [HasSlot .returning σ (List Node)] [HasSlot .output σ (List Node)]
    [LawfulSlot .returning σ] [LawfulSlot .output σ] {c : ReportCall} (h : c.run q = .ok r)
    (hq : (node q).Orderly) (hc : ∀ m ∈ c.arguments, m.Orderly) : (node r).Orderly := by
  cases c with
  | addReturning ns =>
      exact orderly_extend .returning (fun _ => rfl) h hq (List.forall_mem_map.mp hc)
  | addOutput ns => exact orderly_extend .output (fun _ => rfl) h hq hc
  | clearReturning | clearOutput =>
      cases h
      exact orderly_clear hq

end Calls

theorem Select.Call.orderly_run {c : Select.Call} {q r : Select Node} (h : c.run q = .ok r)
    (hq : (Node.select q).Orderly) (hc : ∀ m ∈ c.arguments, m.Orderly) :
    (Node.select r).Orderly := by
  have hh (n : Node) : (Node.having n).Orderly ↔ n.Orderly := Node.orderly_around rfl trivial
  cases c with
  | common c =>
      cases h
      exact c.orderly_run (σ := Select Node) hq hc
  | row c => exact RowCall.orderly_run (σ := Select Node) h hq hc
  | addFrom ns => exact orderly_extend (σ := Select Node) .from (fun _ => rfl) h hq hc
  | addGroupBy ns => exact orderly_extend (σ := Select Node) .groupBy (fun _ => rfl) h hq hc
  | addSelections ns =>
      cases h
      exact orderly_append (σ := Select Node) (fun _ => rfl) hq (List.forall_mem_map.mp hc)
  | setDistinct b =>
      cases h
      rw [Node.orderly_iff] at hq ⊢
      exact hq
  | addHaving p =>
      cases h
      exact orderly_mergeInto (σ := Select Node) (fun _ => rfl) hh hq
        (by simpa [arguments] using hc)
  | putOffset n =>
      cases h
      exact orderly_put (σ := Select Node) hq hc
  | clearSelections | clearGroupBy | clearOffset =>
      cases h
      exact orderly_clear (σ := Select Node) hq

theorem Insert.orderly_withSource {q : Insert Node} {n : Node} (hq : (Node.insert q).Orderly)
    (hn : n.Orderly) : (Node.insert (q.withSource n)).Orderly := by
  have hp : (q.withSource n).clauseParts = Function.update q.clauseParts .values [n] := by
    funext k
    cases k <;> rfl
  exact orderly_update (q := q) (r := q.withSource n) hp (by simp [node, withSource])
    hq (List.forall_mem_singleton.mpr hn)

theorem Insert.orderly_withDefaults {q : Insert Node} (hq : (Node.insert q).Orderly) :
    (Node.insert q.withDefaults).Orderly := by
  have hp : q.withDefaults.clauseParts = Function.update q.clauseParts .values [] := by
    funext k
    cases k <;> rfl
  exact orderly_update (q := q) (r := q.withDefaults) hp
    (by simp [node, withDefaults]) hq (by simp)

theorem Insert.Call.orderly_run {c : Insert.Call} {q r : Insert Node} (h : c.run q = .ok r)
    (hq : (Node.insert q).Orderly) (hc : ∀ m ∈ c.arguments, m.Orderly) :
    (Node.insert r).Orderly := by
  cases c with
  | common c =>
      cases h
      exact c.orderly_run (σ := Insert Node) hq hc
  | report c => exact ReportCall.orderly_run (σ := Insert Node) h hq hc
  | addColumns cs =>
      cases h
      exact orderly_append (σ := Insert Node) (fun _ => rfl) hq (List.forall_mem_map.mp hc)
  | setSource n =>
      cases h
      exact orderly_withSource hq (hc n (List.mem_singleton_self n))
  | setDefaults =>
      cases h
      exact orderly_withDefaults hq
  | putOnConflict c =>
      cases h
      exact orderly_put (σ := Insert Node) hq hc
  | setIgnore b =>
      cases h
      rw [Node.orderly_iff] at hq ⊢
      exact hq

theorem Update.Call.orderly_run {c : Update.Call} {q r : Update Node} (h : c.run q = .ok r)
    (hq : (Node.update q).Orderly) (hc : ∀ m ∈ c.arguments, m.Orderly) :
    (Node.update r).Orderly := by
  cases c with
  | common c =>
      cases h
      exact c.orderly_run (σ := Update Node) hq hc
  | row c => exact RowCall.orderly_run (σ := Update Node) h hq hc
  | report c => exact ReportCall.orderly_run (σ := Update Node) h hq hc
  | addFrom ns => exact orderly_extend (σ := Update Node) .from (fun _ => rfl) h hq hc
  | addAssignments as =>
      cases h
      exact orderly_append (σ := Update Node) (fun _ => rfl) hq (List.forall_mem_map.mp hc)

theorem Delete.Call.orderly_run {c : Delete.Call} {q r : Delete Node} (h : c.run q = .ok r)
    (hq : (Node.delete q).Orderly) (hc : ∀ m ∈ c.arguments, m.Orderly) :
    (Node.delete r).Orderly := by
  cases c with
  | common c =>
      cases h
      exact c.orderly_run (σ := Delete Node) hq hc
  | row c => exact RowCall.orderly_run (σ := Delete Node) h hq hc
  | report c => exact ReportCall.orderly_run (σ := Delete Node) h hq hc
  | addUsing ns => exact orderly_extend (σ := Delete Node) .using (fun _ => rfl) h hq hc

end SqlTree
