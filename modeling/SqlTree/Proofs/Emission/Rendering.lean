import SqlTree.Proofs.Emission.Layout

/-! # Rendering follows the layouts -/

namespace SqlTree

/-! ## Renderings one after another -/

namespace Rendering

/-- One rendering before another. -/
protected def append (r s : Rendering) : Rendering := do
  let ps ← r
  let qs ← s
  return ps ++ qs

theorem ok_append (ps : List Piece) (s : Rendering) :
    Rendering.append (.ok ps) s = s.map (ps ++ ·) := by
  cases s <;> rfl

@[simp] theorem error_append (e : Error) (s : Rendering) :
    Rendering.append (.error e) s = .error e := rfl

@[simp] theorem append_nil (r : Rendering) : r.append (.ok []) = r := by
  cases r <;> simp [ok_append, Except.map]

@[simp] theorem nil_append (r : Rendering) : Rendering.append (.ok []) r = r := by
  cases r <;> simp [ok_append, Except.map]

@[simp] theorem append_assoc (r s t : Rendering) :
    (r.append s).append t = r.append (s.append t) := by
  cases r with
  | error e => rfl
  | ok ps =>
      cases s with
      | error e => rfl
      | ok qs => cases t <;> simp [ok_append, Except.map]

theorem append_eq_ok {r s : Rendering} {ps : List Piece} :
    r.append s = .ok ps ↔ ∃ qs rs, r = .ok qs ∧ s = .ok rs ∧ ps = qs ++ rs := by
  cases r with
  | error e => simp
  | ok qs => cases s <;> simp [ok_append, Except.map, eq_comm]

@[simp] theorem seq_nil : seq [] = .ok [] := rfl

@[simp] theorem seq_cons (r : Rendering) (rs : List Rendering) :
    seq (r :: rs) = r.append (seq rs) := rfl

theorem seq_append (rs ss : List Rendering) : seq (rs ++ ss) = (seq rs).append (seq ss) := by
  induction rs with
  | nil => rw [List.nil_append, seq_nil, nil_append]
  | cons r rs ih => rw [List.cons_append, seq_cons, seq_cons, ih, append_assoc]

theorem separated_eq (s : String) (rs : List Rendering) :
    separated s rs = seq (rs.intersperse (text s)) := by
  fun_induction separated with
  | case1 => rfl
  | case2 r => rw [List.intersperse_singleton, seq_cons, seq_nil, append_nil]
  | case3 r rs hne ih =>
      cases rs with
      | nil => exact absurd rfl hne
      | cons r' rs =>
          rw [List.intersperse_cons_cons, ih]
          simp only [seq_cons, append_nil, seq_nil]

@[simp] theorem parenthesized_true (r : Rendering) :
    parenthesized true r = (text "(").append (r.append (text ")")) := by
  simp [parenthesized]

@[simp] theorem parenthesized_false (r : Rendering) : parenthesized false r = r := rfl

end Rendering

/-! ## The loops of the renderer -/

section Loops

variable (d : Dialect)

theorem Node.renderAll_eq (b : Bool) (ns : List Node) :
    Node.renderAll d b ns = ns.map (Node.render d b) := by
  induction ns with
  | nil => rfl
  | cons n ns ih => rw [renderAll, ih, List.map_cons]

theorem Node.renderOpt_eq (b : Bool) (n : Option Node) :
    Node.renderOpt d b n = n.map (Node.render d b) := by
  cases n <;> rfl

theorem Node.renderOptAll_eq (b : Bool) (ns : Option (List Node)) :
    Node.renderOptAll d b ns = ns.map (·.map (Node.render d b)) := by
  cases ns with
  | none => rfl
  | some ns => rw [renderOptAll, renderAll_eq, Option.map_some]

theorem Node.renderRows_eq (rows : List (List Node)) :
    Node.renderRows d rows = rows.map fun row => Node.render d true (.valueList row) := by
  induction rows with
  | nil => rfl
  | cons row rows ih => rw [renderRows, ih, List.map_cons, render]

theorem SortItem.renderAll_eq (xs : List (SortItem Node)) :
    SortItem.renderAll d xs = xs.map (SortItem.render d) := by
  induction xs with
  | nil => rfl
  | cons x xs ih => rw [renderAll, ih, List.map_cons]

theorem SortItem.renderOptAll_eq (xs : Option (List (SortItem Node))) :
    SortItem.renderOptAll d xs = xs.map (·.map (SortItem.render d)) := by
  cases xs with
  | none => rfl
  | some xs => rw [renderOptAll, renderAll_eq, Option.map_some]

theorem Join.renderAll_eq (xs : List (Join Node)) :
    Join.renderAll d xs = xs.map (Join.render d) := by
  induction xs with
  | nil => rfl
  | cons x xs ih => rw [renderAll, ih, List.map_cons]

theorem Join.renderOptAll_eq (xs : Option (List (Join Node))) :
    Join.renderOptAll d xs = xs.map (·.map (Join.render d)) := by
  cases xs with
  | none => rfl
  | some xs => rw [renderOptAll, renderAll_eq, Option.map_some]

theorem Cte.renderAll_eq (xs : List (Cte Node)) :
    Cte.renderAll d xs = xs.map (Cte.render d) := by
  induction xs with
  | nil => rfl
  | cons x xs ih => rw [renderAll, ih, List.map_cons]

theorem Assignment.renderAll_eq (xs : List (Assignment Node)) :
    Assignment.renderAll d xs = xs.map (Assignment.render d) := by
  induction xs with
  | nil => rfl
  | cons x xs ih => rw [renderAll, ih, List.map_cons]

theorem Assignment.renderOptAll_eq (xs : Option (List (Assignment Node))) :
    Assignment.renderOptAll d xs = xs.map (·.map (Assignment.render d)) := by
  cases xs with
  | none => rfl
  | some xs => rw [renderOptAll, renderAll_eq, Option.map_some]

theorem Explain.renderOpt_eq (x : Option (Explain Node)) :
    Explain.renderOpt d x = x.map (Explain.render d) := by
  cases x <;> rfl

theorem With.renderOpt_eq (x : Option (With Node)) :
    With.renderOpt d x = x.map (With.render d) := by
  cases x <;> rfl

theorem OnConflict.renderOpt_eq (x : Option (OnConflict Node)) :
    OnConflict.renderOpt d x = x.map (OnConflict.render d) := by
  cases x <;> rfl

end Loops

/-! ## Rendering items -/

namespace Item

variable (d : Dialect) (b : Bool)

@[simp] theorem render_text (s : String) : (text s).render d b = Rendering.text s := rfl

@[simp] theorem render_part (n : Node) : (part n).render d b = n.render d b := rfl

@[simp] theorem render_refuse (e : Error) : (refuse e).render d b = .error e := rfl

@[simp] theorem renderAll_nil : renderAll d b [] = .ok [] := rfl

@[simp] theorem renderAll_cons (i : Item) (is : List Item) :
    renderAll d b (i :: is) = (i.render d b).append (renderAll d b is) := rfl

@[simp] theorem renderAll_append (is js : List Item) :
    renderAll d b (is ++ js) = (renderAll d b is).append (renderAll d b js) := by
  rw [renderAll, List.map_append, Rendering.seq_append]
  rfl

@[simp] theorem renderAll_separated (s : String) (ns : List Node) :
    renderAll d b (separated s ns) = Rendering.separated s (ns.map (Node.render d b)) := by
  rw [Rendering.separated_eq, renderAll, separated, map_intersperse, List.map_map]
  rfl

@[simp] theorem renderAll_listed (k : String) (ns : List Node) :
    renderAll d b (listed k ns) =
      (Rendering.text k).append (Rendering.separated ", " (ns.map (Node.render d b))) := by
  rw [listed, renderAll_cons, renderAll_separated, render_text]

@[simp] theorem renderAll_grouped (w : Bool) (n : Node) :
    renderAll d b (grouped w n) = Rendering.parenthesized w (n.render d b) := by
  cases w with
  | false => exact Rendering.append_nil _
  | true => rfl

@[simp] theorem renderAll_tuple (ns : List Node) :
    renderAll d b (tuple ns) =
      Rendering.parenthesized true (Rendering.separated ", " (ns.map (Node.render d b))) := by
  rw [tuple, renderAll_append, renderAll_cons, renderAll_separated, Rendering.append_assoc]
  rfl

@[simp] theorem renderAll_interleaved (fs : List String) (ns : List Node) :
    renderAll d b (interleaved fs ns) = Rendering.interleaved fs (ns.map (Node.render d b)) := by
  fun_induction interleaved with
  | case1 => rfl
  | case2 f fs ih => simp [ih, Rendering.interleaved]
  | case3 f fs n ns ih => simp [ih, Rendering.interleaved]

end Item

/-! ## Rendering statements -/

namespace Layout

theorem map_clause (d : Dialect) (b : Bool) (c : Clause) (is : Option (List Item)) :
    (clause c is).map (fun c => (c.1, Item.renderAll d b c.2)) =
      Dialect.clause c (is.map (Item.renderAll d b)) := by
  cases is <;> rfl

theorem map_single (d : Dialect) (b : Bool) (c : Clause) (n : Option Node) :
    (single c n).map (fun c => (c.1, Item.renderAll d b c.2)) =
      Dialect.clause c (n.map (Node.render d b)) := by
  rw [single, map_clause]
  cases n <;> simp

theorem render_statement (d : Dialect) (b : Bool) (k : StatementKind)
    (cs : List (Clause × List Item)) :
    (statement d k cs).render d b =
      d.renderStatement k (cs.map fun c => (c.1, Item.renderAll d b c.2)) := by
  have hp : ((fun c : Clause × Rendering => !(d.clauseOrder k).contains c.1) ∘
      fun c : Clause × List Item => (c.1, Item.renderAll d b c.2)) =
        fun c => !(d.clauseOrder k).contains c.1 := rfl
  rw [statement, Dialect.renderStatement, List.find?_map, hp]
  cases cs.find? fun c => !(d.clauseOrder k).contains c.1 with
  | some c => rfl
  | none =>
      simp only [Layout.render, Option.map_none, List.mapM_map]
      congr 1
      apply congrArg (fun f => List.mapM f (d.clauseOrder k))
      funext c
      simp only [Function.comp_apply, lookup_map]
      cases cs.lookup c <;> rfl

end Layout

theorem Select.render_eq (d : Dialect) (q : Select Node) :
    q.render d = (Layout.statement d .select q.layout).render d true := by
  obtain ⟨fromItems, selections, distinct, joins, whereClause, groupBy, having, orderBy, limit,
    offset, withClause, explain, top, endModifiers⟩ := q
  simp only [Layout.render_statement, Select.render, Select.layout, List.map_append,
    Layout.map_single, Layout.map_clause, Option.map_map, Function.comp_def, List.map_map,
    Node.renderOptAll_eq, Node.renderOpt_eq, With.renderOpt_eq, Explain.renderOpt_eq,
    SortItem.renderOptAll_eq, Join.renderOptAll_eq, Item.renderAll_separated, Node.render,
    Node.renderAll_eq, SortItem.renderAll_eq]
  congr 13
  rcases selections with _ | _ | ⟨n, ns⟩ <;> simp [Node.render, Function.comp_def]

theorem Insert.render_eq (d : Dialect) (q : Insert Node) :
    q.render d = ((Node.insert q).layout d).render d false := by
  obtain ⟨into, columns, source, defaultValues, ignore, onConflict, returning, output, withClause,
    explain, top, endModifiers⟩ := q
  simp only [Insert.render, Node.layout, Node.renderOpt_eq, Option.isNone_map]
  split
  · simp [Layout.render]
  · split
    · rename_i h
      rw [h]
      simp [Layout.render]
    · rename_i keyword h
      rw [h]
      simp only [Layout.render_statement, Insert.layout, List.map_append, Layout.map_single,
        Layout.map_clause, Option.map_map, Function.comp_def, Node.renderOptAll_eq,
        With.renderOpt_eq, Explain.renderOpt_eq, OnConflict.renderOpt_eq,
        Item.renderAll_separated, Node.render, Node.renderAll_eq]
      congr 9
      · cases source <;> simp [Node.render]
      · funext cs
        cases cs <;> simp [Dialect.renderColumns, Node.render, Function.comp_def]

theorem Update.render_eq (d : Dialect) (q : Update Node) :
    q.render d = ((Node.update q).layout d).render d true := by
  obtain ⟨table, assignments, fromItems, joins, whereClause, returning, output, withClause,
    orderBy, limit, top, explain, endModifiers⟩ := q
  rcases assignments with _ | _ | ⟨a, as⟩
  case none | nil => simp [Update.render, Node.layout, Layout.render, Assignment.renderOptAll_eq]
  simp only [Update.render, Node.layout, Layout.render_statement, Update.layout, List.map_append,
    Layout.map_single, Layout.map_clause, Option.map_map, Function.comp_def, List.map_map,
    Node.renderOptAll_eq, Node.renderOpt_eq, With.renderOpt_eq, Explain.renderOpt_eq,
    SortItem.renderOptAll_eq, Join.renderOptAll_eq, Item.renderAll_separated, Node.render,
    Node.renderAll_eq, SortItem.renderAll_eq, Assignment.renderOptAll_eq, Option.map_some]
  simp [Node.render, Function.comp_def]

theorem Delete.render_eq (d : Dialect) (q : Delete Node) :
    q.render d = (Layout.statement d .delete q.layout).render d true := by
  obtain ⟨fromItems, usingItems, joins, whereClause, returning, withClause, orderBy, limit, explain,
    endModifiers, top, output⟩ := q
  simp only [Layout.render_statement, Delete.render, Delete.layout, List.map_append,
    Layout.map_single, Layout.map_clause, Option.map_map, Function.comp_def, List.map_map,
    Node.renderOptAll_eq, Node.renderOpt_eq, With.renderOpt_eq, Explain.renderOpt_eq,
    SortItem.renderOptAll_eq, Join.renderOptAll_eq, Item.renderAll_separated, Node.render,
    Node.renderAll_eq, SortItem.renderAll_eq]
  simp [Node.render, Node.renderAll_eq]

theorem OnConflict.render_eq (d : Dialect) (c : OnConflict Node) :
    c.render d = d.gate .onConflict (Item.renderAll d true c.layout) := by
  obtain ⟨columns, constraint, doNothing, updates, updateWhere⟩ := c
  simp only [OnConflict.render, Dialect.renderOnConflict, OnConflict.layout, Node.renderOpt_eq,
    Assignment.renderOptAll_eq]
  congr 1
  cases columns <;> cases constraint <;> cases doNothing <;>
    rcases updates with _ | _ | ⟨u, us⟩ <;> cases updateWhere <;>
    simp [Rendering.optional, Dialect.renderColumns, Node.render, Function.comp_def]

/-! ## Rendering nodes -/

/-- A node is checked, and stands in parentheses if it is a nested statement; what it writes is
its layout, with its parts rendered by their own layouts. -/
theorem Node.render_eq (d : Dialect) (nested : Bool) (n : Node) :
    n.render d nested = d.gate n.kind
      (.parenthesized (nested && n.kind.isStatement) ((n.layout d).render d n.kind.delimits)) := by
  cases n
  case select q => simp [render, kind, layout, Select.render_eq, Kind.isStatement, Kind.delimits]
  case insert q => simp [render, kind, Insert.render_eq, Kind.isStatement, Kind.delimits]
  case update q => simp [render, kind, Update.render_eq, Kind.isStatement, Kind.delimits]
  case delete q => simp [render, kind, layout, Delete.render_eq, Kind.isStatement, Kind.delimits]
  -- No other kind is a statement, so the parentheses are gone from the goal.
  all_goals simp only [kind, Kind.isStatement, Bool.and_false, Rendering.parenthesized_false,
    layout, Layout.render, Kind.delimits]
  case identifier | selectAll | operator | modifier => rfl
  case table t =>
    obtain ⟨schema, name⟩ := t
    cases schema <;> simp [render, Dialect.renderTable, Rendering.optional]
  case column c => simp [render, Dialect.renderColumn]
  case reference t c => cases t <;> simp [render, Rendering.optional]
  case value v immediate => cases immediate <;> rfl
  case valueList ns => simp [render, renderAll_eq, Dialect.renderValueList]
  case raw fragments ns => simp [render, renderAll_eq]
  case binary l op r => simp [render, OperandPosition.render]
  case unary op n => by_cases h : op = .neg <;> simp [h, render, OperandPosition.render]
  case and l r => simp [render, OperandPosition.render]
  case «alias» | or | parens => simp [render]
  case selection n => simp [render, Dialect.renderSelection]
  case offset n => simp [render, Dialect.renderOffset]
  case function name ns => simp [render, renderAll_eq]
  case «from» ns => simp [render, renderAll_eq, Dialect.renderFrom, Dialect.renderItems]
  case «using» ns => simp [render, renderAll_eq, Dialect.renderUsing, Dialect.renderItems]
  case output ns => simp [render, renderAll_eq, Dialect.renderOutput, Dialect.renderItems]
  case groupBy ns => simp [render, renderAll_eq, Dialect.renderGroupBy, Dialect.renderItems]
  case returning ns =>
    simp [render, renderAll_eq, Dialect.renderReturning, Dialect.renderItems, Function.comp_def]
  case orderBy is =>
    simp [render, SortItem.renderAll_eq, Dialect.renderOrderBy, Dialect.renderItems,
      Function.comp_def]
  case values rows => simp [render, renderRows_eq, Dialect.renderItems, Function.comp_def]
  case «on» n => simp [render, Dialect.renderOn, Dialect.renderItems]
  case «where» n => simp [render, Dialect.renderWhere, Dialect.renderItems]
  case having n => simp [render, Dialect.renderHaving, Dialect.renderItems]
  case limit n => simp [render, Dialect.renderLimit, Dialect.renderItems]
  case join j =>
    obtain ⟨type, table, condition⟩ := j
    cases condition <;> simp [render, Join.render, renderOpt_eq, Rendering.optional]
  case orderByItem i =>
    obtain ⟨expr, direction⟩ := i
    cases direction <;>
      simp [render, SortItem.render, Dialect.renderOrderByItem, Rendering.optional]
  case top t =>
    obtain ⟨count, modifier⟩ := t
    cases modifier <;> simp [render, Dialect.renderTop, Rendering.optional]
  case explain e =>
    obtain ⟨format, options⟩ := e
    cases format <;> cases options <;> cases hx : d.explainSyntax <;>
      simp [render, Explain.render, Explain.layout, Dialect.renderExplain, Rendering.optional,
        renderOpt_eq, hx]
  case «with» w =>
    obtain ⟨isRecursive, ctes⟩ := w
    simp [render, With.render, Cte.renderAll_eq, Dialect.renderItems, Function.comp_def]
  case cte c =>
    obtain ⟨name, materialized, body⟩ := c
    simp [render, Cte.render]
  case cteName n =>
    obtain ⟨table, columns⟩ := n
    cases columns <;>
      simp [render, Dialect.renderCteName, Rendering.optional, Dialect.renderColumns,
        Function.comp_def]
  case assignment a =>
    obtain ⟨column, value⟩ := a
    simp [render, Assignment.render]
  case onConflict c => rw [render, OnConflict.render_eq]

end SqlTree
