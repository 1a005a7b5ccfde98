import SqlTree.Proofs.Form.Trees
import SqlTree.Proofs.Json.Documents

/-! # Trees of exact values

A value is exact if it holds no floating-point numbers and only exact JSON documents. The form of a
tree is an exact document if the values in the tree are. -/

namespace SqlTree

open Form

/-! ## Exact fields -/

namespace Json

@[simp] theorem isExact_null : Json.null.isExact = true := rfl

@[simp] theorem isExact_bool (b : Bool) : (Json.bool b).isExact = true := rfl

@[simp] theorem isExact_text (s : String) : (Json.text s).isExact = true := rfl

@[simp] theorem isExact_array (js : List Json) :
    (Json.array js).isExact = true ↔ ∀ j ∈ js, j.isExact = true := by
  rw [isExact, isExactItems_eq, List.all_eq_true]

theorem isExact_uint64 (n : UInt64) : (Json.int n.toNat).isExact = true := by
  have hlow : Int64.minValue.toInt ≤ 0 := by decide
  have hn := n.toNat_lt_size
  rw [isExact, decide_eq_true_eq]
  omega

end Json

namespace Form

@[simp] theorem isExact_name {α : Type} [Named α] (a : α) : (name a).isExact = true := rfl

@[simp] theorem isExact_only (name : String) (j : Json) : (only name j).isExact = j.isExact := by
  simp [only, Json.isExact, Json.isExactFields]

@[simp] theorem isExact_list {α : Type} (write : α → Json) (as : List α) :
    (list write as).isExact = true ↔ ∀ a ∈ as, (write a).isExact = true := by
  rw [list, Json.isExact_array, List.forall_mem_map]

@[simp] theorem isExact_optional {α : Type} (write : α → Json) (o : Option α) :
    (optional write o).isExact = true ↔ ∀ a ∈ o, (write a).isExact = true := by
  cases o <;> simp [optional]

/-- What the fields of an object hold is exact. -/
def AreExact (fs : Fields) : Prop := ∀ f ∈ fs, f.2.isExact = true

@[simp] theorem areExact_nil : AreExact [] := nofun

@[simp] theorem areExact_cons {f : String × Json} {fs : Fields} :
    AreExact (f :: fs) ↔ f.2.isExact = true ∧ AreExact fs :=
  List.forall_mem_cons

theorem AreExact.ofFields {fs : Fields} (h : AreExact fs) : (Json.ofFields fs).isExact = true :=
  Json.isExact_ofFields h

@[simp] theorem AreExact.tagged {k : Kind} {fs : Fields} (h : AreExact fs) :
    (tagged k fs).isExact = true :=
  ofFields (areExact_cons.mpr ⟨rfl, h⟩)

end Form

/-! ## Values -/

namespace Value

mutual

/-- Whether a value holds no floating-point numbers, and only exact documents. -/
def isExact : Value → Bool
  | .float _ => false
  | .json j => j.isExact
  | .array vs => isExactAll vs
  | _ => true
termination_by structural v => v

/-- Whether the values of a list are exact. -/
def isExactAll : List Value → Bool
  | [] => true
  | v :: vs => v.isExact && isExactAll vs
termination_by structural vs => vs

end

theorem isExact_tagged (tag : String) (j : Json) : (tagged tag j).isExact = j.isExact :=
  isExact_only tag j

mutual

/-- The form of an exact value is exact. -/
theorem isExact_form {v : Value} (h : v.isExact = true) : v.form.isExact = true := by
  cases v with
  | null => rfl
  | bool b => exact isExact_tagged "Bool" (.bool b)
  | int n =>
      have hlow := n.minValue_le_toInt
      have hhigh : n.toInt < UInt64.size := Int.lt_of_le_of_lt n.toInt_le (by decide)
      rw [form, isExact_tagged, Json.isExact, decide_eq_true_eq]
      exact ⟨hlow, hhigh⟩
  | float x => cases h
  | text s => exact isExact_tagged "String" (.text s)
  | bytes bs =>
      rw [form, isExact_tagged, Json.isExact_array, List.forall_mem_map]
      exact fun b _ => Json.isExact_uint64 b.toUInt64
  | uuid u => exact isExact_tagged "Uuid" (.text u.text)
  | instant t => exact isExact_tagged "Timestamp" (.text (t.text "Z"))
  | json j => exact (isExact_tagged "Json" j).trans h
  | array vs =>
      rw [form, isExact_tagged, Json.isExact_array]
      exact isExact_forms h
termination_by structural v

theorem isExact_forms {vs : List Value} (h : isExactAll vs = true) :
    ∀ j ∈ forms vs, j.isExact = true := by
  cases vs with
  | nil => nofun
  | cons v vs =>
      obtain ⟨hv, hvs⟩ := Bool.and_eq_true_iff.mp h
      exact List.forall_mem_cons.mpr ⟨isExact_form hv, isExact_forms hvs⟩
termination_by structural vs

end

end Value

/-! ## Names -/

@[simp] theorem Identifier.areExact_fields (i : Identifier) : AreExact i.fields := by
  simp [fields]

@[simp] theorem Identifier.isExact_form (i : Identifier) : i.form.isExact = true :=
  i.areExact_fields.ofFields

@[simp] theorem Table.areExact_fields (t : Table) : AreExact t.fields := by
  simp [fields]

@[simp] theorem Table.isExact_form (t : Table) : t.form.isExact = true :=
  t.areExact_fields.ofFields

@[simp] theorem Column.areExact_fields (c : Column) : AreExact c.fields := by
  simp [fields]

@[simp] theorem Column.isExact_form (c : Column) : c.form.isExact = true :=
  c.areExact_fields.ofFields

@[simp] theorem CteName.areExact_fields (n : CteName) : AreExact n.fields := by
  simp [fields]

@[simp] theorem CteName.isExact_form (n : CteName) : n.form.isExact = true :=
  n.areExact_fields.ofFields

@[simp] theorem Top.areExact_fields (t : Top) : AreExact t.fields := by
  simp [fields, Json.isExact_uint64]

/-! ## Slots -/

section Slots

theorem Node.isExact_form {n : Node} (h : AreExact n.formFields) : n.form.isExact = true :=
  h.tagged

theorem Node.isExact_forms {ns : List Node} (h : ∀ m ∈ ns, AreExact m.formFields) :
    (Json.array (forms ns)).isExact = true := by
  rw [forms_eq, Json.isExact_array, List.forall_mem_map]
  exact fun m hm => isExact_form (h m hm)

variable {β : Type} {make : β → Node} {j : Json}

/-- A list of slots for one kind. -/
theorem isExact_slots {bs : List β} (hj : j = list (fun b => .ofFields (make b).formFields) bs)
    (h : ∀ m ∈ bs.map make, AreExact m.formFields) : j.isExact = true := by
  subst hj
  rw [isExact_list]
  exact fun b hb => (h _ (List.mem_map_of_mem hb)).ofFields

/-- An optional slot for one kind. -/
theorem isExact_optionalSlot {o : Option β}
    (hj : j = optional (fun b => .ofFields (make b).formFields) o)
    (h : ∀ m ∈ o.toList.map make, AreExact m.formFields) : j.isExact = true := by
  subst hj
  rw [isExact_optional]
  exact fun b hb => (h _ (List.mem_map_of_mem (Option.mem_toList.mpr hb))).ofFields

theorem isExact_updates {o : Option (List (Assignment Node))}
    (h : ∀ m ∈ (o.getD []).map Node.assignment, AreExact m.formFields) :
    (optionalList (Assignment.formsOpt o)).isExact = true := by
  cases o with
  | none => rfl
  | some as => exact isExact_slots (congrArg Json.array (Assignment.forms_eq as)) h

theorem isExact_joins {o : Option (List (Join Node))}
    (h : ∀ m ∈ (o.getD []).map Node.join, AreExact m.formFields) :
    (optionalList (Join.formsOpt o)).isExact = true := by
  cases o with
  | none => rfl
  | some js => exact isExact_slots (congrArg Json.array (Join.forms_eq js)) h

theorem isExact_formOpt {o : Option Node} (h : ∀ m ∈ o.toList, AreExact m.formFields) :
    (optional id (Node.formOpt o)).isExact = true := by
  cases o with
  | none => rfl
  | some n => exact Node.isExact_form (h n (List.mem_singleton_self n))

theorem isExact_formsOpt {o : Option (List Node)} (h : ∀ m ∈ o.getD [], AreExact m.formFields) :
    (optionalList (Node.formsOpt o)).isExact = true := by
  cases o with
  | none => rfl
  | some ns => exact Node.isExact_forms h

end Slots

/-! ## Statements -/

theorem Select.areExact_fields {q : Select Node}
    (r : ∀ c, ∀ m ∈ q.clauseParts c, AreExact m.formFields) : AreExact q.fields := by
  obtain ⟨fromItems, items, distinct, joins, whereClause, groupBy, having, orderBy, limit, offset,
    withClause, explain, top, endModifiers⟩ := q
  have hItems : (optional Form.selections (Node.formsOpt items)).isExact = true := by
    cases items with
    | none => rfl
    | some ns => exact isExact_slots (selections_forms ns) (r .selections)
  simp only [fields, areExact_cons]
  exact ⟨isExact_optionalSlot (by cases fromItems <;> rfl) (r .from), hItems, rfl,
    isExact_joins (r .joins),
    isExact_optionalSlot (by cases whereClause <;> rfl) (r .where),
    isExact_optionalSlot (by cases groupBy <;> rfl) (r .groupBy),
    isExact_optionalSlot (by cases having <;> rfl) (r .having),
    isExact_optionalSlot (by cases orderBy <;> rfl) (r .orderBy),
    isExact_optionalSlot (by cases limit <;> rfl) (r .limit),
    isExact_optionalSlot (by cases offset <;> rfl) (r .offset),
    isExact_optionalSlot (by cases withClause <;> rfl) (r .with),
    isExact_optionalSlot (by cases explain <;> rfl) (r .explain),
    isExact_optionalSlot rfl (r .top),
    isExact_formsOpt (r .endModifiers), areExact_nil⟩

theorem Insert.areExact_fields {q : Insert Node}
    (r : ∀ c, ∀ m ∈ q.clauseParts c, AreExact m.formFields) : AreExact q.fields := by
  obtain ⟨into, columns, source, defaultValues, ignore, onConflict, returning, output, withClause,
    explain, top, endModifiers⟩ := q
  simp only [fields, areExact_cons]
  exact ⟨into.isExact_form, by simp, isExact_formOpt (r .values), rfl, rfl,
    isExact_optionalSlot (by cases onConflict <;> rfl) (r .onConflict),
    isExact_optionalSlot (by cases returning <;> rfl) (r .returning),
    isExact_optionalSlot (by cases output <;> rfl) (r .output),
    isExact_optionalSlot (by cases withClause <;> rfl) (r .with),
    isExact_optionalSlot (by cases explain <;> rfl) (r .explain),
    isExact_optionalSlot rfl (r .top),
    isExact_formsOpt (r .endModifiers), areExact_nil⟩

theorem Update.areExact_fields {q : Update Node}
    (r : ∀ c, ∀ m ∈ q.clauseParts c, AreExact m.formFields) : AreExact q.fields := by
  obtain ⟨table, assignments, fromItems, joins, whereClause, returning, output, withClause, orderBy,
    limit, top, explain, endModifiers⟩ := q
  simp only [fields, areExact_cons]
  exact ⟨(r .table table (List.mem_singleton_self table)).tagged,
    isExact_updates (r .set),
    isExact_optionalSlot (by cases fromItems <;> rfl) (r .from),
    isExact_joins (r .joins),
    isExact_optionalSlot (by cases whereClause <;> rfl) (r .where),
    isExact_optionalSlot (by cases returning <;> rfl) (r .returning),
    isExact_optionalSlot (by cases output <;> rfl) (r .output),
    isExact_optionalSlot (by cases withClause <;> rfl) (r .with),
    isExact_optionalSlot (by cases orderBy <;> rfl) (r .orderBy),
    isExact_optionalSlot (by cases limit <;> rfl) (r .limit),
    isExact_optionalSlot rfl (r .top),
    isExact_optionalSlot (by cases explain <;> rfl) (r .explain),
    isExact_formsOpt (r .endModifiers), areExact_nil⟩

theorem Delete.areExact_fields {q : Delete Node}
    (r : ∀ c, ∀ m ∈ q.clauseParts c, AreExact m.formFields) : AreExact q.fields := by
  obtain ⟨fromItems, usingItems, joins, whereClause, returning, withClause, orderBy, limit, explain,
    endModifiers, top, output⟩ := q
  have hFrom : AreExact (Node.from fromItems).formFields := r .from _ (List.mem_singleton_self _)
  simp only [fields, areExact_cons]
  exact ⟨hFrom.ofFields,
    isExact_optionalSlot (by cases usingItems <;> rfl) (r .using),
    isExact_joins (r .joins),
    isExact_optionalSlot (by cases whereClause <;> rfl) (r .where),
    isExact_optionalSlot (by cases returning <;> rfl) (r .returning),
    isExact_optionalSlot (by cases withClause <;> rfl) (r .with),
    isExact_optionalSlot (by cases orderBy <;> rfl) (r .orderBy),
    isExact_optionalSlot (by cases limit <;> rfl) (r .limit),
    isExact_optionalSlot (by cases explain <;> rfl) (r .explain),
    isExact_formsOpt (r .endModifiers),
    isExact_optionalSlot rfl (r .top),
    isExact_optionalSlot (by cases output <;> rfl) (r .output), areExact_nil⟩

/-! ## Trees -/

open Node in
/-- The fields of a node are exact if those of the nodes below it are, and if it is a value, the
value. -/
theorem Node.areExact_formFields {n : Node}
    (hv : ∀ v immediate, n = .value v immediate → v.form.isExact = true)
    (r : ∀ m ∈ n.children, AreExact m.formFields) : AreExact n.formFields := by
  cases n with
  | identifier i => exact i.areExact_fields
  | table t => exact t.areExact_fields
  | column c => exact c.areExact_fields
  | cteName n => exact n.areExact_fields
  | top t => exact t.areExact_fields
  | value v immediate => exact areExact_cons.mpr ⟨hv v immediate rfl, by simp⟩
  | selectAll | operator _ | modifier _ | reference _ _ | «alias» _ _ | valueList _ | raw _ _
  | binary _ _ _ | unary _ _ | and _ _ | or _ _ | parens _ | function _ _ | «from» _ | «using» _
  | «on» _ | «where» _ | selection _ | output _ | groupBy _ | having _ | limit _ | offset _ =>
      simp_all [formFields, children, parts, forms_eq, form]
  | returning ns =>
      exact areExact_cons.mpr ⟨isExact_slots (selections_forms ns) r, areExact_nil⟩
  | orderBy is =>
      exact areExact_cons.mpr
        ⟨isExact_slots (congrArg Json.array (SortItem.forms_eq is)) r, areExact_nil⟩
  | values rows =>
      exact areExact_cons.mpr ⟨isExact_slots (rows_formRows rows) r, areExact_nil⟩
  | join j =>
      obtain ⟨type, table, condition⟩ := j
      have hOn : (optionalOnly "on" (formOpt condition)).isExact = true :=
        isExact_optionalSlot (by cases condition <;> rfl) fun m hm =>
          r m (List.mem_cons_of_mem _ hm)
      simp [formFields, Join.fields, hOn, r table (List.mem_cons_self ..)]
  | orderByItem i =>
      obtain ⟨expr, direction⟩ := i
      simp [formFields, SortItem.fields, r expr (List.mem_cons_self ..)]
  | explain e =>
      obtain ⟨format, options⟩ := e
      simp only [formFields, Explain.fields, areExact_cons]
      exact ⟨by simp, isExact_formOpt r, areExact_nil⟩
  | «with» w =>
      obtain ⟨isRecursive, ctes⟩ := w
      simp only [formFields, With.fields, areExact_cons]
      exact ⟨rfl, isExact_slots (congrArg Json.array (Cte.forms_eq ctes)) r, areExact_nil⟩
  | cte c =>
      obtain ⟨name, materialized, body⟩ := c
      simp [formFields, Cte.fields, r body (by simp [children, parts])]
  | assignment a =>
      obtain ⟨column, value⟩ := a
      simp [formFields, Assignment.fields, r value (by simp [children, parts])]
  | onConflict c =>
      obtain ⟨columns, constraint, doNothing, updates, updateWhere⟩ := c
      have hUpdates : (optionalList (Assignment.formsOpt updates)).isExact = true :=
        isExact_updates fun m hm => r m (List.mem_append_left _ (List.mem_append_right _ hm))
      have hWhere : (optionalOnly "predicate" (formOpt updateWhere)).isExact = true :=
        isExact_optionalSlot (by cases updateWhere <;> rfl) fun m hm =>
          r m (List.mem_append_right _ hm)
      simp [formFields, OnConflict.fields, hUpdates, hWhere]
  | select q =>
      exact q.areExact_fields fun c m hm => r m (List.mem_flatMap.mpr ⟨c, c.mem_all, hm⟩)
  | insert q =>
      exact q.areExact_fields fun c m hm => r m (List.mem_flatMap.mpr ⟨c, c.mem_all, hm⟩)
  | update q =>
      exact q.areExact_fields fun c m hm => r m (List.mem_flatMap.mpr ⟨c, c.mem_all, hm⟩)
  | delete q =>
      exact q.areExact_fields fun c m hm => r m (List.mem_flatMap.mpr ⟨c, c.mem_all, hm⟩)

/-- The form of a tree is exact if its values are. -/
theorem Node.isExact_form_of_values {n : Node}
    (h : ∀ v immediate, .value v immediate ∈ n.nodes → v.isExact = true) :
    n.form.isExact = true := by
  refine isExact_form ?_
  induction n using Node.induction_children with
  | step n ih =>
      refine areExact_formFields (fun v immediate hn => ?_) fun m hm =>
        ih m hm fun v immediate hv => ?_
      · refine Value.isExact_form (h v immediate ?_)
        rw [nodes_eq, hn]
        exact List.mem_cons_self ..
      · refine h v immediate ?_
        rw [nodes_eq]
        exact List.mem_cons_of_mem _ (List.mem_flatMap.mpr ⟨m, hm, hv⟩)

end SqlTree
