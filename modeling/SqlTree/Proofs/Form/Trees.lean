import SqlTree.Proofs.Form.Nodes

/-! # Reading back every kind of node -/

namespace SqlTree

open Form

/-! ## Slots -/

namespace KindOf

theorem reads_from : KindOf.from.Reads fun node => field? "froms" (list? node) :=
  ⟨fun _ => rfl, fun _ => rfl, fun _ => rfl⟩

theorem reads_using : KindOf.using.Reads fun node => field? "tables" (list? node) :=
  ⟨fun _ => rfl, fun _ => rfl, fun _ => rfl⟩

theorem reads_join : KindOf.join.Reads join? := ⟨fun _ => rfl, fun _ => rfl, fun _ => rfl⟩

theorem reads_on : KindOf.on.Reads (field? "on") := ⟨fun _ => rfl, fun _ => rfl, fun _ => rfl⟩

theorem reads_where : KindOf.where.Reads (field? "predicate") :=
  ⟨fun _ => rfl, fun _ => rfl, fun _ => rfl⟩

theorem reads_selection : KindOf.selection.Reads (field? "selection") :=
  ⟨fun _ => rfl, fun _ => rfl, fun _ => rfl⟩

theorem reads_returning :
    KindOf.returning.Reads fun node => field? "selections" (selections? node) :=
  ⟨fun _ => rfl, fun _ => rfl, fun _ => rfl⟩

theorem reads_output : KindOf.output.Reads fun node => field? "selections" (list? node) :=
  ⟨fun _ => rfl, fun _ => rfl, fun _ => rfl⟩

theorem reads_orderBy :
    KindOf.orderBy.Reads fun node => field? "items" (list? (record? (sortItem? node))) :=
  ⟨fun _ => rfl, fun _ => rfl, fun _ => rfl⟩

theorem reads_orderByItem : KindOf.orderByItem.Reads sortItem? :=
  ⟨fun _ => rfl, fun _ => rfl, fun _ => rfl⟩

theorem reads_groupBy : KindOf.groupBy.Reads fun node => field? "items" (list? node) :=
  ⟨fun _ => rfl, fun _ => rfl, fun _ => rfl⟩

theorem reads_having : KindOf.having.Reads (field? "predicate") :=
  ⟨fun _ => rfl, fun _ => rfl, fun _ => rfl⟩

theorem reads_limit : KindOf.limit.Reads (field? "limit") :=
  ⟨fun _ => rfl, fun _ => rfl, fun _ => rfl⟩

theorem reads_offset : KindOf.offset.Reads (field? "offset") :=
  ⟨fun _ => rfl, fun _ => rfl, fun _ => rfl⟩

theorem reads_top : KindOf.top.Reads fun _ => top? := ⟨fun _ => rfl, fun _ => rfl, fun _ => rfl⟩

theorem reads_explain : KindOf.explain.Reads explain? := ⟨fun _ => rfl, fun _ => rfl, fun _ => rfl⟩

theorem reads_with : KindOf.with.Reads with? := ⟨fun _ => rfl, fun _ => rfl, fun _ => rfl⟩

theorem reads_cte : KindOf.cte.Reads cte? := ⟨fun _ => rfl, fun _ => rfl, fun _ => rfl⟩

theorem reads_assignment : KindOf.assignment.Reads assignment? :=
  ⟨fun _ => rfl, fun _ => rfl, fun _ => rfl⟩

theorem reads_valueList : KindOf.valueList.Reads fun node => field? "values" (list? node) :=
  ⟨fun _ => rfl, fun _ => rfl, fun _ => rfl⟩

theorem reads_onConflict : KindOf.onConflict.Reads onConflict? :=
  ⟨fun _ => rfl, fun _ => rfl, fun _ => rfl⟩

end KindOf

open KindOf

section Slots

variable {levels : Nat} {fs : Fields}

theorem restores_forms {ns : List Node} (h : ∀ m ∈ ns, m.Readable) :
    Restores levels (list? (Node.ofFormWithin? .node levels)) ns (.array (Node.forms ns)) := by
  rw [Node.forms_eq]
  exact .list fun m hm => (h m hm).restores levels

theorem yields_node {n : Node} {name : String} (h : Holds levels fs (name, n.form))
    (r : n.Readable) : Yields (field? name (Node.ofFormWithin? .node levels)) fs n :=
  .field h (r.restores levels)

theorem yields_forms {ns : List Node} {name : String}
    (h : Holds levels fs (name, .array (Node.forms ns))) (r : ∀ m ∈ ns, m.Readable) :
    Yields (field? name (list? (Node.ofFormWithin? .node levels))) fs ns :=
  .field h (restores_forms r)

theorem yields_formOpt {o : Option Node} {name : String}
    (h : Holds levels fs (name, optional id (Node.formOpt o))) (r : ∀ m ∈ o.toList, m.Readable) :
    Yields (optional? name (Node.ofFormWithin? .node levels)) fs o := by
  have hform : optional id (Node.formOpt o) = optional Node.form o := by cases o <;> rfl
  rw [hform] at h
  exact .optional h (.optional (fun m => Json.ofFields_ne_null _) fun m hm =>
    (r m (Option.mem_toList.mpr hm)).restores levels)

theorem selections_forms (ns : List Node) :
    selections (Node.forms ns) = list (fun n => .ofFields (Node.selection n).formFields) ns := by
  rw [selections, Node.forms_eq, list, list, List.map_map]
  rfl

theorem restores_selections {ns : List Node} (r : ∀ m ∈ ns.map Node.selection, m.Readable) :
    Restores levels (selections? (Node.ofFormWithin? .node levels)) ns
      (selections (Node.forms ns)) := by
  rw [selections_forms]
  exact reads_selection.list r

theorem rows_formRows (rows : List (List Node)) :
    Form.rows (Node.formRows rows) =
      list (fun ns => .ofFields (Node.valueList ns).formFields) rows := by
  rw [Form.rows, Node.formRows_eq, list, list, List.map_map]
  refine congrArg Json.array (List.map_congr_left fun ns _ => ?_)
  exact congrArg (fun js => only "values" (.array js)) (Node.forms_eq ns).symm

theorem restores_rows {rows : List (List Node)}
    (r : ∀ m ∈ rows.map Node.valueList, m.Readable) :
    Restores levels (rows? (Node.ofFormWithin? .node levels)) rows
      (Form.rows (Node.formRows rows)) := by
  rw [rows_formRows]
  exact reads_valueList.list r

theorem yields_updates {o : Option (List (Assignment Node))}
    (h : Holds levels fs ("updates", optionalList (Assignment.formsOpt o)))
    (r : ∀ m ∈ (o.getD []).map Node.assignment, m.Readable) :
    Yields (optional? "updates" (list? (record? (assignment? (Node.ofFormWithin? .node levels)))))
      fs o := by
  refine reads_assignment.optionalList h ?_ r
  cases o with
  | none => rfl
  | some as => exact congrArg Json.array (Assignment.forms_eq as)

theorem yields_fromSlot {o : Option (List Node)}
    (h : Holds levels fs ("from", optionalItems "froms" (Node.formsOpt o)))
    (r : ∀ m ∈ o.toList.map Node.from, m.Readable) :
    Yields (fromSlot? (Node.ofFormWithin? .node levels)) fs o :=
  reads_from.optional h (by cases o <;> rfl) r

theorem yields_joinsSlot {o : Option (List (Join Node))}
    (h : Holds levels fs ("joins", optionalList (Join.formsOpt o)))
    (r : ∀ m ∈ (o.getD []).map Node.join, m.Readable) :
    Yields (joinsSlot? (Node.ofFormWithin? .node levels)) fs o := by
  refine reads_join.optionalList h ?_ r
  cases o with
  | none => rfl
  | some js => exact congrArg Json.array (Join.forms_eq js)

theorem yields_whereSlot {o : Option Node}
    (h : Holds levels fs ("where_clause", optionalOnly "predicate" (Node.formOpt o)))
    (r : ∀ m ∈ o.toList.map Node.where, m.Readable) :
    Yields (whereSlot? (Node.ofFormWithin? .node levels)) fs o :=
  reads_where.optional h (by cases o <;> rfl) r

theorem yields_returningSlot {o : Option (List Node)}
    (h : Holds levels fs ("returning", optionalReturning (Node.formsOpt o)))
    (r : ∀ m ∈ o.toList.map Node.returning, m.Readable) :
    Yields (returningSlot? (Node.ofFormWithin? .node levels)) fs o :=
  reads_returning.optional h (by cases o <;> rfl) r

theorem yields_outputSlot {o : Option (List Node)}
    (h : Holds levels fs ("output", optionalItems "selections" (Node.formsOpt o)))
    (r : ∀ m ∈ o.toList.map Node.output, m.Readable) :
    Yields (outputSlot? (Node.ofFormWithin? .node levels)) fs o :=
  reads_output.optional h (by cases o <;> rfl) r

theorem yields_orderBySlot {o : Option (List (SortItem Node))}
    (h : Holds levels fs ("order_by", optionalItems "items" (SortItem.formsOpt o)))
    (r : ∀ m ∈ o.toList.map Node.orderBy, m.Readable) :
    Yields (orderBySlot? (Node.ofFormWithin? .node levels)) fs o :=
  reads_orderBy.optional h (by cases o <;> rfl) r

theorem yields_limitSlot {o : Option Node}
    (h : Holds levels fs ("limit", optionalOnly "limit" (Node.formOpt o)))
    (r : ∀ m ∈ o.toList.map Node.limit, m.Readable) :
    Yields (limitSlot? (Node.ofFormWithin? .node levels)) fs o :=
  reads_limit.optional h (by cases o <;> rfl) r

theorem yields_withSlot {o : Option (With Node)} (h : Holds levels fs ("with", With.formOpt o))
    (r : ∀ m ∈ o.toList.map Node.with, m.Readable) :
    Yields (withSlot? (Node.ofFormWithin? .node levels)) fs o :=
  reads_with.optional h (by cases o <;> rfl) r

theorem yields_explainSlot {o : Option (Explain Node)}
    (h : Holds levels fs ("explain", Explain.formOpt o))
    (r : ∀ m ∈ o.toList.map Node.explain, m.Readable) :
    Yields (explainSlot? (Node.ofFormWithin? .node levels)) fs o :=
  reads_explain.optional h (by cases o <;> rfl) r

theorem yields_topSlot {o : Option Top} (h : Holds levels fs ("top", optional Top.form o))
    (r : ∀ m ∈ o.toList.map Node.top, m.Readable) : Yields topSlot? fs o :=
  reads_top.optional h rfl r

theorem yields_endSlot {o : Option (List Node)}
    (h : Holds levels fs ("end_modifiers", optionalList (Node.formsOpt o)))
    (r : ∀ m ∈ o.getD [], m.Readable) :
    Yields (endSlot? (Node.ofFormWithin? .node levels)) fs o := by
  have hform : optionalList (Node.formsOpt o) = optional (list Node.form) o := by
    cases o with
    | none => rfl
    | some ns => exact congrArg Json.array (Node.forms_eq ns)
  rw [hform] at h
  refine .optional h (.optional nofun fun ns hns => .list fun m hm => ?_)
  cases hns
  exact (r m hm).restores levels

end Slots

/-! ## Statements -/

theorem Select.yields {q : Select Node} {levels : Nat} {fs : Fields}
    (h : ∀ f ∈ q.fields, Holds levels fs f) (r : ∀ c, ∀ m ∈ q.clauseParts c, m.Readable) :
    Yields (select? (Node.ofFormWithin? .node levels)) fs q := by
  obtain ⟨fromItems, items, distinct, joins, whereClause, groupBy, having, orderBy, limit, offset,
    withClause, explain, top, endModifiers⟩ := q
  simp only [fields, List.forall_mem_cons] at h
  obtain ⟨hFrom, hItems, hDistinct, hJoins, hWhere, hGroupBy, hHaving, hOrderBy, hLimit, hOffset,
    hWith, hExplain, hTop, hEnd, -⟩ := h
  have hSelections : Yields (optional? "selections"
      (selections? (Node.ofFormWithin? .node levels))) fs items := by
    refine reads_selection.optionalList hItems ?_ (r .selections)
    cases items with
    | none => rfl
    | some ns => exact selections_forms ns
  exact .bind (yields_fromSlot hFrom (r .from)) <|
    .bind hSelections <|
    .bind (.default hDistinct (.of_eq rfl)) <|
    .bind (yields_joinsSlot hJoins (r .joins)) <|
    .bind (yields_whereSlot hWhere (r .where)) <|
    .bind (reads_groupBy.optional hGroupBy (by cases groupBy <;> rfl) (r .groupBy)) <|
    .bind (reads_having.optional hHaving (by cases having <;> rfl) (r .having)) <|
    .bind (yields_orderBySlot hOrderBy (r .orderBy)) <|
    .bind (yields_limitSlot hLimit (r .limit)) <|
    .bind (reads_offset.optional hOffset (by cases offset <;> rfl) (r .offset)) <|
    .bind (yields_withSlot hWith (r .with)) <|
    .bind (yields_explainSlot hExplain (r .explain)) <|
    .bind (yields_topSlot hTop (r .top)) <|
    .bind (yields_endSlot hEnd (r .endModifiers)) <| .pure _

theorem Insert.yields {q : Insert Node} {levels : Nat} {fs : Fields}
    (h : ∀ f ∈ q.fields, Holds levels fs f) (r : ∀ c, ∀ m ∈ q.clauseParts c, m.Readable) :
    Yields (insert? (Node.ofFormWithin? .node levels)) fs q := by
  obtain ⟨into, columns, source, defaultValues, ignore, onConflict, returning, output, withClause,
    explain, top, endModifiers⟩ := q
  simp only [fields, List.forall_mem_cons] at h
  obtain ⟨hInto, hColumns, hSource, hDefaults, hIgnore, hOnConflict, hReturning, hOutput, hWith,
    hExplain, hTop, hEnd, -⟩ := h
  exact .bind (.field hInto (.of_eq into.ofForm?_form)) <|
    .bind (.optional hColumns (.of_eq (columns?_form columns))) <|
    .bind (yields_formOpt hSource (r .values)) <|
    .bind (.default hDefaults (.of_eq rfl)) <|
    .bind (.default hIgnore (.of_eq rfl)) <|
    .bind (reads_onConflict.optional hOnConflict (by cases onConflict <;> rfl) (r .onConflict)) <|
    .bind (yields_returningSlot hReturning (r .returning)) <|
    .bind (yields_outputSlot hOutput (r .output)) <|
    .bind (yields_withSlot hWith (r .with)) <|
    .bind (yields_explainSlot hExplain (r .explain)) <|
    .bind (yields_topSlot hTop (r .top)) <|
    .bind (yields_endSlot hEnd (r .endModifiers)) <| .pure _

theorem Update.yields {q : Update Node} {levels : Nat} {fs : Fields}
    (h : ∀ f ∈ q.fields, Holds levels fs f) (r : ∀ c, ∀ m ∈ q.clauseParts c, m.Readable) :
    Yields (update? (Node.ofFormWithin? .node levels)) fs q := by
  obtain ⟨table, assignments, fromItems, joins, whereClause, returning, output, withClause, orderBy,
    limit, top, explain, endModifiers⟩ := q
  simp only [fields, List.forall_mem_cons] at h
  obtain ⟨hTable, hUpdates, hFrom, hJoins, hWhere, hReturning, hOutput, hWith, hOrderBy, hLimit,
    hTop, hExplain, hEnd, -⟩ := h
  exact .bind (yields_node hTable (r .table table (List.mem_singleton_self table))) <|
    .bind (yields_updates hUpdates (r .set)) <|
    .bind (yields_fromSlot hFrom (r .from)) <|
    .bind (yields_joinsSlot hJoins (r .joins)) <|
    .bind (yields_whereSlot hWhere (r .where)) <|
    .bind (yields_returningSlot hReturning (r .returning)) <|
    .bind (yields_outputSlot hOutput (r .output)) <|
    .bind (yields_withSlot hWith (r .with)) <|
    .bind (yields_orderBySlot hOrderBy (r .orderBy)) <|
    .bind (yields_limitSlot hLimit (r .limit)) <|
    .bind (yields_topSlot hTop (r .top)) <|
    .bind (yields_explainSlot hExplain (r .explain)) <|
    .bind (yields_endSlot hEnd (r .endModifiers)) <| .pure _

theorem Delete.yields {q : Delete Node} {levels : Nat} {fs : Fields}
    (h : ∀ f ∈ q.fields, Holds levels fs f) (r : ∀ c, ∀ m ∈ q.clauseParts c, m.Readable) :
    Yields (delete? (Node.ofFormWithin? .node levels)) fs q := by
  obtain ⟨fromItems, usingItems, joins, whereClause, returning, withClause, orderBy, limit, explain,
    endModifiers, top, output⟩ := q
  simp only [fields, List.forall_mem_cons] at h
  obtain ⟨hFrom, hUsing, hJoins, hWhere, hReturning, hWith, hOrderBy, hLimit, hExplain, hEnd, hTop,
    hOutput, -⟩ := h
  have hItems : (Node.from fromItems).Readable := r .from _ (List.mem_singleton_self _)
  exact .bind (.field hFrom (reads_from.restores hItems)) <|
    .bind (reads_using.optional hUsing (by cases usingItems <;> rfl) (r .using)) <|
    .bind (yields_joinsSlot hJoins (r .joins)) <|
    .bind (yields_whereSlot hWhere (r .where)) <|
    .bind (yields_returningSlot hReturning (r .returning)) <|
    .bind (yields_withSlot hWith (r .with)) <|
    .bind (yields_orderBySlot hOrderBy (r .orderBy)) <|
    .bind (yields_limitSlot hLimit (r .limit)) <|
    .bind (yields_explainSlot hExplain (r .explain)) <|
    .bind (yields_endSlot hEnd (r .endModifiers)) <|
    .bind (yields_topSlot hTop (r .top)) <|
    .bind (yields_outputSlot hOutput (r .output)) <| .pure _

/-! ## Clauses -/

section Clauses

variable {levels : Nat} {fs : Fields}

theorem operator?_name (op : Operator) : operator? (only "operator" (name op)) = some op := by
  cases op <;> rfl

theorem Join.yields {j : Join Node} (h : ∀ f ∈ j.fields, Holds levels fs f)
    (ht : j.table.Readable) (hc : ∀ m ∈ j.condition.toList.map Node.on, m.Readable) :
    Yields (join? (Node.ofFormWithin? .node levels)) fs j := by
  obtain ⟨type, table, condition⟩ := j
  simp only [fields, List.forall_mem_cons] at h
  obtain ⟨hType, hTable, hOn, -⟩ := h
  exact .bind (.field hType (.of_eq (named?_name .node type))) <|
    .bind (yields_node hTable ht) <|
    .bind (reads_on.optional hOn (by cases condition <;> rfl) hc) <| .pure _

theorem SortItem.yields {i : SortItem Node} (h : ∀ f ∈ i.fields, Holds levels fs f)
    (he : i.expr.Readable) : Yields (sortItem? (Node.ofFormWithin? .node levels)) fs i := by
  obtain ⟨expr, direction⟩ := i
  simp only [fields, List.forall_mem_cons] at h
  obtain ⟨hExpr, hDirection, -⟩ := h
  exact .bind (yields_node hExpr he) <|
    .bind (.optional hDirection (.of_eq (optional_name direction))) <| .pure _

theorem Explain.yields {e : Explain Node} (h : ∀ f ∈ e.fields, Holds levels fs f)
    (ho : ∀ m ∈ e.options.toList, m.Readable) :
    Yields (explain? (Node.ofFormWithin? .node levels)) fs e := by
  obtain ⟨format, options⟩ := e
  simp only [fields, List.forall_mem_cons] at h
  obtain ⟨hFormat, hOptions, -⟩ := h
  exact .bind (.optional hFormat (.of_eq (optional_name format))) <|
    .bind (yields_formOpt hOptions ho) <| .pure _

theorem Cte.yields {c : Cte Node} (h : ∀ f ∈ c.fields, Holds levels fs f)
    (hb : c.body.Readable) : Yields (cte? (Node.ofFormWithin? .node levels)) fs c := by
  obtain ⟨head, materialized, body⟩ := c
  simp only [fields, List.forall_mem_cons] at h
  obtain ⟨hName, hMaterialized, hBody, -⟩ := h
  have hFlag : orNull? bool? (optional Json.bool materialized) = some materialized :=
    orNull?_optional (fun b h => by cases h) fun _ _ => rfl
  exact .bind (.field hName (.of_eq head.ofForm?_form)) <|
    .bind (.optional hMaterialized (.of_eq hFlag)) <|
    .bind (yields_node hBody hb) <| .pure _

theorem With.yields {w : With Node} (h : ∀ f ∈ w.fields, Holds levels fs f)
    (hc : ∀ m ∈ w.ctes.map Node.cte, m.Readable) :
    Yields (with? (Node.ofFormWithin? .node levels)) fs w := by
  obtain ⟨isRecursive, ctes⟩ := w
  simp only [fields, List.forall_mem_cons, Cte.forms_eq] at h
  obtain ⟨hRecursive, hCtes, -⟩ := h
  exact .bind (.field hRecursive (.of_eq rfl)) <|
    .bind (.field hCtes (reads_cte.list hc)) <| .pure _

theorem Assignment.yields {a : Assignment Node} (h : ∀ f ∈ a.fields, Holds levels fs f)
    (hv : a.value.Readable) : Yields (assignment? (Node.ofFormWithin? .node levels)) fs a := by
  obtain ⟨column, value⟩ := a
  simp only [fields, List.forall_mem_cons] at h
  obtain ⟨hColumn, hValue, -⟩ := h
  exact .bind (.field hColumn (.of_eq column.ofForm?_form)) <|
    .bind (yields_node hValue hv) <| .pure _

theorem OnConflict.yields {c : OnConflict Node} (h : ∀ f ∈ c.fields, Holds levels fs f)
    (hu : ∀ m ∈ (c.updates.getD []).map Node.assignment, m.Readable)
    (hw : ∀ m ∈ c.updateWhere.toList.map Node.where, m.Readable) :
    Yields (onConflict? (Node.ofFormWithin? .node levels)) fs c := by
  obtain ⟨columns, constraint, doNothing, updates, updateWhere⟩ := c
  simp only [fields, List.forall_mem_cons] at h
  obtain ⟨hColumns, hConstraint, hDoNothing, hUpdates, hWhere, -⟩ := h
  have hName : orNull? Identifier.ofForm? (optional Identifier.form constraint) = some constraint :=
    orNull?_optional (fun i => Json.ofFields_ne_null i.fields) fun i _ => i.ofForm?_form
  exact .bind (.optional hColumns (.of_eq (columns?_form columns))) <|
    .bind (.optional hConstraint (.of_eq hName)) <|
    .bind (.field hDoNothing (.of_eq rfl)) <|
    .bind (yields_updates hUpdates hu) <|
    .bind (reads_where.optional hWhere (by cases updateWhere <;> rfl) hw) <| .pure _

theorem Top.yields {t : Top} (h : ∀ f ∈ t.fields, Holds levels fs f) : Yields top? fs t := by
  simp only [fields, List.forall_mem_cons] at h
  obtain ⟨hCount, hModifier, -⟩ := h
  exact .bind (.field hCount (.of_eq (uint64?_toNat t.count))) <|
    .bind (.optional hModifier (.of_eq (optional_name t.modifier))) <| .pure _

end Clauses

/-! ## All nodes -/

open Node in
/-- A node is read back if those below it are, and if it is a value, the value. -/
theorem Node.readable_of_children {n : Node}
    (hv : ∀ v immediate, n = .value v immediate → Value.ofForm? .node v.form = some v)
    (r : ∀ m ∈ n.children, m.Readable) : n.Readable := by
  intro levels fs h
  cases n with
  | identifier i => exact .map _ (Identifier.yields h)
  | table t => exact .map _ (Table.yields h)
  | column c => exact .map _ (Column.yields h)
  | cteName n => exact .map _ (CteName.yields h)
  | top t => exact .map _ (Top.yields h)
  | selectAll => exact .pure _
  | operator op =>
      exact .map _ (.field (List.forall_mem_cons.mp h).1 (.of_eq (named?_name .node op)))
  | modifier m =>
      exact .map _ (.field (List.forall_mem_cons.mp h).1 (.of_eq (named?_name .node m)))
  | value v immediate =>
      simp only [formFields, List.forall_mem_cons] at h
      obtain ⟨hValue, hImmediate, -⟩ := h
      exact .bind (.field hValue (.of_eq (hv v immediate rfl))) <|
        .bind (.default hImmediate (.of_eq rfl)) <| .pure _
  | reference t c =>
      simp only [formFields, List.forall_mem_cons] at h
      obtain ⟨hTable, hColumn, -⟩ := h
      have ht : orNull? Table.ofForm? (optional Table.form t) = some t :=
        orNull?_optional (fun t => Json.ofFields_ne_null t.fields) fun t _ => t.ofForm?_form
      exact .bind (.optional hTable (.of_eq ht)) <|
        .bind (yields_node hColumn (r c (by simp [children, parts]))) <| .pure _
  | «alias» n i =>
      simp only [formFields, List.forall_mem_cons] at h
      obtain ⟨hNode, hAlias, -⟩ := h
      exact .bind (yields_node hNode (r n (List.mem_cons_self ..))) <|
        .bind (.field hAlias (.of_eq i.ofForm?_form)) <| .pure _
  | raw fragments ns =>
      simp only [formFields, List.forall_mem_cons] at h
      obtain ⟨hFragments, hParameters, -⟩ := h
      exact .bind (.field hFragments (.of_eq (list?_list fun _ _ => rfl))) <|
        .bind (yields_forms hParameters r) <| .pure _
  | function f ns =>
      simp only [formFields, List.forall_mem_cons] at h
      obtain ⟨hName, hArguments, -⟩ := h
      exact .bind (.field hName (.of_eq rfl)) <| .bind (yields_forms hArguments r) <| .pure _
  | binary left op right =>
      simp only [formFields, List.forall_mem_cons] at h
      obtain ⟨hLeft, hOp, hRight, -⟩ := h
      exact .bind (yields_node hLeft (r left (by simp [children, parts]))) <|
        .bind (.field hOp (.of_eq (operator?_name op))) <|
        .bind (yields_node hRight (r right (by simp [children, parts]))) <| .pure _
  | unary op n =>
      simp only [formFields, List.forall_mem_cons] at h
      obtain ⟨hOp, hOperand, -⟩ := h
      exact .bind (.field hOp (.of_eq (operator?_name op))) <|
        .bind (yields_node hOperand (r n (by simp [children, parts]))) <| .pure _
  | and left right | or left right =>
      simp only [formFields, List.forall_mem_cons] at h
      obtain ⟨hLeft, hRight, -⟩ := h
      exact .bind (yields_node hLeft (r left (by simp [children, parts]))) <|
        .bind (yields_node hRight (r right (by simp [children, parts]))) <| .pure _
  | parens n | «on» n | «where» n | selection n | having n | limit n | offset n =>
      exact .map _ (yields_node (List.forall_mem_cons.mp h).1 (r n (List.mem_cons_self ..)))
  | valueList ns | «from» ns | «using» ns | output ns | groupBy ns =>
      exact .map _ (yields_forms (List.forall_mem_cons.mp h).1 r)
  | returning ns =>
      exact .map _ (.field (List.forall_mem_cons.mp h).1 (restores_selections r))
  | orderBy is =>
      simp only [formFields, List.forall_mem_cons, SortItem.forms_eq] at h
      exact .map _ (.field h.1 (reads_orderByItem.list r))
  | values rows =>
      simp only [formFields, List.forall_mem_cons] at h
      exact .map _ (.field h.1 (restores_rows r))
  | join j =>
      exact .map _ (Join.yields h (r _ (List.mem_cons_self ..))
        fun m hm => r m (List.mem_cons_of_mem _ hm))
  | orderByItem i => exact .map _ (SortItem.yields h (r _ (List.mem_cons_self ..)))
  | explain e => exact .map _ (Explain.yields h r)
  | «with» w => exact .map _ (With.yields h r)
  | cte c => exact .map _ (Cte.yields h (r _ (by simp [children, parts])))
  | assignment a => exact .map _ (Assignment.yields h (r _ (by simp [children, parts])))
  | onConflict c =>
      refine .map _ (OnConflict.yields h (fun m hm => r m ?_) fun m hm => r m ?_)
      · exact List.mem_append_left _ (List.mem_append_right _ hm)
      · exact List.mem_append_right _ hm
  | select q =>
      exact .map _ (q.yields h fun c m hm => r m (List.mem_flatMap.mpr ⟨c, c.mem_all, hm⟩))
  | insert q =>
      exact .map _ (q.yields h fun c m hm => r m (List.mem_flatMap.mpr ⟨c, c.mem_all, hm⟩))
  | update q =>
      exact .map _ (q.yields h fun c m hm => r m (List.mem_flatMap.mpr ⟨c, c.mem_all, hm⟩))
  | delete q =>
      exact .map _ (q.yields h fun c m hm => r m (List.mem_flatMap.mpr ⟨c, c.mem_all, hm⟩))

/-! ## Trees -/

/-- The instants in the values of a tree. -/
def Node.instants (n : Node) : List Instant :=
  n.nodes.flatMap fun
    | .value v _ => v.instants
    | _ => []

/-- Every tree is read back, as far as the calendar gives its instants back. -/
theorem Node.readable (n : Node)
    (h : ∀ t ∈ n.instants, Instant.ofString? (t.text "Z") = some t) : n.Readable := by
  induction n using Node.induction_children with
  | step n ih =>
      refine readable_of_children (fun v immediate hn => ?_) fun m hm => ih m hm fun t ht => ?_
      · subst hn
        refine v.ofForm?_form .node fun t ht =>
          h t (List.mem_flatMap.mpr ⟨.value v immediate, ?_, ht⟩)
        rw [nodes_eq]
        exact List.mem_cons_self ..
      · obtain ⟨k, hk, ht⟩ := List.mem_flatMap.mp ht
        refine h t (List.mem_flatMap.mpr ⟨k, ?_, ht⟩)
        rw [nodes_eq]
        exact List.mem_cons_of_mem _ (List.mem_flatMap.mpr ⟨m, hm, hk⟩)

/-- Reading a tree from its JSON form gives the tree. -/
theorem Node.ofForm?_form (n : Node)
    (h : ∀ t ∈ n.instants, Instant.ofString? (t.text "Z") = some t) : ofForm? n.form = some n :=
  (n.readable h).ofFormWithin?_form .alone le_rfl

end SqlTree
