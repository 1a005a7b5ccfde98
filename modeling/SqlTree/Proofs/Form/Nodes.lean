import SqlTree.Form.Node.Reader
import SqlTree.Proofs.Building.Nodes
import SqlTree.Proofs.Form.Values

/-! # Reading back trees

A node is read back from its form when the nodes below it are. What a slot for one kind holds is
read back from a form without the kind, since the parts of a node of the kind are. -/

namespace SqlTree

/-! ## Names -/

/-- Enumerations whose members have different names, and are all told by them. -/
class LawfulNamed (α : Type) [Named α] : Prop where
  ofName?_name : ∀ a : α, Named.ofName? (Named.name a) = some a

instance : LawfulNamed Kind := ⟨fun a => by cases a <;> rfl⟩
instance : LawfulNamed Operator := ⟨fun a => by cases a <;> rfl⟩
instance : LawfulNamed JoinType := ⟨fun a => by cases a <;> rfl⟩
instance : LawfulNamed Direction := ⟨fun a => by cases a <;> rfl⟩
instance : LawfulNamed TopModifier := ⟨fun a => by cases a <;> rfl⟩
instance : LawfulNamed ExplainFormat := ⟨fun a => by cases a <;> rfl⟩
instance : LawfulNamed StatementModifier := ⟨fun a => by cases a <;> rfl⟩

open Form

theorem named?_name {α : Type} [Named α] [LawfulNamed α] (p : Place) (a : α) :
    named? p (name a) = some a :=
  LawfulNamed.ofName?_name a

theorem optional_name {α : Type} [Named α] [LawfulNamed α] (o : Option α) :
    orNull? (named? .node) (optional name o) = some o :=
  orNull?_optional nofun fun a _ => named?_name .node a

theorem uint64?_toNat (n : UInt64) : uint64? (.int n.toNat) = some n := by
  have hn : (0 : Int) ≤ n.toNat ∧ (n.toNat : Int) ≤ (UInt64.size - 1 : Nat) := by
    have h := n.toNat_lt_size
    omega
  rw [uint64?, within?, if_pos hn, Option.map_some, Int.toNat_natCast, UInt64.ofNat_toNat]

section Names

variable {levels : Nat} {fs : Fields}

theorem Identifier.yields {i : Identifier} (h : ∀ f ∈ i.fields, Holds levels fs f) :
    Yields parts? fs i :=
  .bind (.field (h _ (List.mem_singleton_self _)) (.of_eq rfl)) (.pure i)

theorem Identifier.ofForm?_form (i : Identifier) : ofForm? i.form = some i :=
  record?_ofFields (by simp [fields]) (Nat.le_succ _) fun _ => yields

theorem Table.yields {t : Table} (h : ∀ f ∈ t.fields, Holds levels fs f) : Yields parts? fs t := by
  simp only [fields, List.forall_mem_cons] at h
  obtain ⟨hSchema, hTable, -⟩ := h
  have hs : orNull? Identifier.ofForm? (optional Identifier.form t.schema) = some t.schema :=
    orNull?_optional (fun i => Json.ofFields_ne_null i.fields) fun i _ => i.ofForm?_form
  exact .bind (.optional hSchema (.of_eq hs)) <|
    .bind (.field hTable (.of_eq t.table.ofForm?_form)) <| .pure t

theorem Table.ofForm?_form (t : Table) : ofForm? t.form = some t :=
  record?_ofFields (by simp [fields]) (Nat.le_succ _) fun _ => yields

theorem Column.yields {c : Column} (h : ∀ f ∈ c.fields, Holds levels fs f) :
    Yields parts? fs c :=
  .bind (.field (h _ (List.mem_singleton_self _)) (.of_eq c.column.ofForm?_form)) (.pure c)

theorem Column.ofForm?_form (c : Column) : ofForm? c.form = some c :=
  record?_ofFields (by simp [fields]) (Nat.le_succ _) fun _ => yields

theorem columns?_form (cs : Option (List Column)) :
    orNull? (list? Column.ofForm?) (optional (list Column.form) cs) = some cs :=
  orNull?_optional nofun fun _ _ => list?_list fun c _ => c.ofForm?_form

theorem CteName.yields {n : CteName} (h : ∀ f ∈ n.fields, Holds levels fs f) :
    Yields parts? fs n := by
  simp only [fields, List.forall_mem_cons] at h
  obtain ⟨hTable, hColumns, -⟩ := h
  exact .bind (.field hTable (.of_eq n.table.ofForm?_form)) <|
    .bind (.optional hColumns (.of_eq (columns?_form n.columns))) <| .pure n

theorem CteName.ofForm?_form (n : CteName) : ofForm? n.form = some n :=
  record?_ofFields (by simp [fields]) (Nat.le_succ _) fun _ => yields

end Names

/-! ## The forms below a node -/

theorem Node.forms_eq (ns : List Node) : Node.forms ns = ns.map Node.form := by
  induction ns with
  | nil => rfl
  | cons n ns ih => rw [forms, ih, List.map_cons, form]

theorem SortItem.forms_eq (is : List (SortItem Node)) :
    SortItem.forms is = is.map fun i => .ofFields i.fields := by
  induction is with
  | nil => rfl
  | cons i is ih => rw [forms, ih, List.map_cons]

theorem Join.forms_eq (js : List (Join Node)) :
    Join.forms js = js.map fun j => .ofFields j.fields := by
  induction js with
  | nil => rfl
  | cons j js ih => rw [forms, ih, List.map_cons]

theorem Cte.forms_eq (cs : List (Cte Node)) :
    Cte.forms cs = cs.map fun c => .ofFields c.fields := by
  induction cs with
  | nil => rfl
  | cons c cs ih => rw [forms, ih, List.map_cons]

theorem Assignment.forms_eq (as : List (Assignment Node)) :
    Assignment.forms as = as.map fun a => .ofFields a.fields := by
  induction as with
  | nil => rfl
  | cons a as ih => rw [forms, ih, List.map_cons]

theorem Node.formRows_eq (rows : List (List Node)) :
    Node.formRows rows = rows.map fun ns => ns.map Node.form := by
  induction rows with
  | nil => rfl
  | cons ns rows ih => rw [formRows, ih, List.map_cons, forms_eq]

/-- The fields of a node have different names, and none is that of the kind. -/
theorem Node.nodup_formFields (n : Node) : ("kind" :: n.formFields.map Prod.fst).Nodup := by
  cases n
  case join x | orderByItem x | explain x | «with» x | cte x | assignment x | onConflict x
      | select x | insert x | update x | delete x =>
    cases x
    simp [formFields, Join.fields, SortItem.fields, Explain.fields, With.fields, Cte.fields,
      Assignment.fields, OnConflict.fields, Select.fields, Insert.fields, Update.fields,
      Delete.fields]
  all_goals simp [formFields, Identifier.fields, Table.fields, Column.fields, CteName.fields,
    Top.fields]

/-! ## Nodes -/

/-- Reading the parts of a node from an object that holds its fields gives the node. -/
def Node.Readable (n : Node) : Prop :=
  ∀ levels fs, (∀ f ∈ n.formFields, Holds levels fs f) →
    Yields (nodeOfKind? (Node.ofFormWithin? .node levels) n.kind) fs n

/-- A node that tells its kind is read back by as many levels as its form has. -/
theorem Node.Readable.ofFormWithin?_form {n : Node} (h : n.Readable) (p : Place) {levels : Nat}
    (hd : n.form.depth ≤ levels) : ofFormWithin? p levels n.form = some n := by
  cases levels with
  | zero =>
      have h₁ := n.form.one_le_depth
      omega
  | succ levels =>
      have hnodup : ((("kind", name n.kind) :: n.formFields).map Prod.fst).Nodup :=
        n.nodup_formFields
      obtain ⟨fs, heq, hfs⟩ := Json.exists_ofFields hnodup
      have hform : n.form = .object fs := heq
      have hkind : Json.lookup? "kind" fs = some (name n.kind) := hfs _ (List.mem_cons_self ..)
      have hread : Yields (nodeOfKind? (Node.ofFormWithin? .node levels) n.kind) fs n := by
        refine h levels fs fun f hf => ?_
        have hl := hfs f (List.mem_cons_of_mem _ hf)
        have hlt := Json.depth_lt_of_lookup? hl
        rw [hform] at hd
        exact ⟨hl, by omega⟩
      have hk : kind? p (name n.kind) = some n.kind := by
        cases p <;> exact LawfulNamed.ofName?_name n.kind
      rw [hform, ofFormWithin?, node?, tagged?, hkind]
      simp only [Option.map_some, Option.bind_eq_bind, Option.bind_some, hk]
      rw [record?, hread]
      rfl

theorem Node.Readable.restores {n : Node} (h : n.Readable) (levels : Nat) :
    Restores levels (Node.ofFormWithin? .node levels) n n.form :=
  h.ofFormWithin?_form .node

/-- The kind of a slot is read as the reader of the slot says. -/
structure KindOf.Reads {β : Type} (k : KindOf β) (read : (Json → Option Node) → Record β) :
    Prop where
  get?_make : ∀ b, k.get? (k.make b) = some b
  kind_make : ∀ b, (k.make b).kind = k.kind
  nodeOfKind?_eq : ∀ node, nodeOfKind? node k.kind = k.make <$> read node

section Slots

variable {β : Type} {k : KindOf β} {read : (Json → Option Node) → Record β} {levels : Nat}
  {fs : Fields}

/-- What a slot for one kind holds is read back without the kind. -/
theorem KindOf.Reads.restores (hk : k.Reads read) {b : β} (h : (k.make b).Readable) :
    Restores levels (record? (read (Node.ofFormWithin? .node levels))) b
      (.ofFields (k.make b).formFields) := by
  intro hd
  refine record?_ofFields (List.nodup_cons.mp (k.make b).nodup_formFields).2 (Nat.le_succ_of_le hd)
    fun fs hfs => ?_
  have hread := h levels fs hfs
  rw [hk.kind_make, hk.nodeOfKind?_eq] at hread
  refine hread.of_map fun x y hxy => ?_
  have hget := congrArg k.get? hxy
  rwa [hk.get?_make, hk.get?_make, Option.some.injEq] at hget

/-- An optional slot for one kind. -/
theorem KindOf.Reads.optional (hk : k.Reads read) {name : String} {o : Option β} {j : Json}
    (hf : Holds levels fs (name, j))
    (hj : j = Form.optional (fun b => .ofFields (k.make b).formFields) o)
    (h : ∀ m ∈ o.toList.map k.make, m.Readable) :
    Yields (optional? name (record? (read (Node.ofFormWithin? .node levels)))) fs o := by
  subst hj
  refine .optional hf (.optional (fun b => Json.ofFields_ne_null _) fun b hb => ?_)
  exact hk.restores (h _ (List.mem_map_of_mem (Option.mem_toList.mpr hb)))

/-- A list of slots for one kind. -/
theorem KindOf.Reads.list (hk : k.Reads read) {bs : List β}
    (h : ∀ m ∈ bs.map k.make, m.Readable) :
    Restores levels (list? (record? (read (Node.ofFormWithin? .node levels)))) bs
      (Form.list (fun b => .ofFields (k.make b).formFields) bs) :=
  .list fun _ hb => hk.restores (h _ (List.mem_map_of_mem hb))

/-- An optional list of slots for one kind. -/
theorem KindOf.Reads.optionalList (hk : k.Reads read) {name : String} {o : Option (List β)}
    {j : Json} (hf : Holds levels fs (name, j))
    (hj : j = Form.optional (Form.list fun b => .ofFields (k.make b).formFields) o)
    (h : ∀ m ∈ (o.getD []).map k.make, m.Readable) :
    Yields (optional? name (list? (record? (read (Node.ofFormWithin? .node levels))))) fs o := by
  subst hj
  refine .optional hf (.optional nofun fun bs hbs => hk.list ?_)
  cases hbs
  exact h

end Slots

end SqlTree
