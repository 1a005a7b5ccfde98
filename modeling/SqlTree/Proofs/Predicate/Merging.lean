import SqlTree.Proofs.Predicate.Spelling
import SqlTree.Statement

/-! # Merged predicates

Predicates that are added to a statement one after another keep their meaning: in PostgreSQL the
text of the WHERE clause is read as the expressions of the predicates with the connectives of the
additions between them, from the left to the right. -/

namespace SqlTree

/-! ## Adding predicates -/

/-- Adds a predicate to a statement. -/
def Connective.addTo {σ : Type} [HasSlot .where σ Node] : Connective → Node → σ → σ
  | .and => Statement.addWhere
  | .or => Statement.orWhere

theorem Connective.addTo_of_none {σ : Type} [HasSlot .where σ Node] {q : σ}
    (h : HasSlot.get Clause.where q = none) (op : Connective) (p : Node) :
    op.addTo p q = HasSlot.set Clause.where (some p) q := by
  cases op <;> simp [addTo, Statement.addWhere, Statement.orWhere, Statement.merge, h, mergeOpt]

namespace Node

/-- Adds a predicate to a SELECT, an UPDATE or a DELETE. -/
def withPredicate (n : Node) (c : Connective × Node) : Node :=
  match n with
  | .select q => .select (c.1.addTo c.2 q)
  | .update q => .update (c.1.addTo c.2 q)
  | .delete q => .delete (c.1.addTo c.2 q)
  | n => n

/-- Whether a node is a SELECT, an UPDATE or a DELETE without a WHERE clause. -/
def isUnfiltered : Node → Bool
  | .select q => q.whereClause.isNone
  | .update q => q.whereClause.isNone
  | .delete q => q.whereClause.isNone
  | _ => false

/-- A SELECT, an UPDATE or a DELETE with the given predicate. -/
def filtered (n : Node) (p : Node) : Node :=
  match n with
  | .select q => .select { q with whereClause := some p }
  | .update q => .update { q with whereClause := some p }
  | .delete q => .delete { q with whereClause := some p }
  | n => n

theorem withPredicate_of_isUnfiltered {n : Node} (h : n.isUnfiltered = true) (op : Connective)
    (p : Node) : n.withPredicate (op, p) = n.filtered p := by
  cases n
  case select q =>
    have hq : q.whereClause = none := Option.isNone_iff_eq_none.mp h
    exact congrArg select (Connective.addTo_of_none hq op p)
  case update q =>
    have hq : q.whereClause = none := Option.isNone_iff_eq_none.mp h
    exact congrArg update (Connective.addTo_of_none hq op p)
  case delete q =>
    have hq : q.whereClause = none := Option.isNone_iff_eq_none.mp h
    exact congrArg delete (Connective.addTo_of_none hq op p)
  all_goals cases h

theorem withPredicate_filtered (n : Node) (op : Connective) (p q : Node) :
    (n.filtered p).withPredicate (op, q) = n.filtered (op.merge p q) := by
  cases n <;> cases op <;> rfl

/-- Predicates added one after another make one predicate. -/
theorem foldl_withPredicate (n : Node) (p : Node) (calls : List (Connective × Node)) :
    calls.foldl withPredicate (n.filtered p) =
      n.filtered (calls.foldl (fun p c => c.1.merge p c.2) p) := by
  induction calls generalizing p with
  | nil => rfl
  | cons c calls ih => rw [List.foldl_cons, withPredicate_filtered, ih, List.foldl_cons]

theorem expr?_merge {op : Connective} {p q : Node} {e f : Expr} (hp : p.expr? = some e)
    (hq : q.expr? = some f) : (op.merge p q).expr? = some (.combine op e f) := by
  cases op with
  | and => exact expr?_and_eq_some.mpr ⟨e, f, hp, hq, rfl⟩
  | or => exact expr?_or_eq_some.mpr ⟨e, f, hp, hq, rfl⟩

theorem expr?_foldl {p : Node} {e : Expr} {calls : List (Connective × Node)}
    {es : List (Connective × Expr)} (hp : p.expr? = some e)
    (hes : List.Forall₂ (fun c f => c.1 = f.1 ∧ c.2.expr? = some f.2) calls es) :
    (calls.foldl (fun p c => c.1.merge p c.2) p).expr? =
      some (es.foldl (fun e f => .combine f.1 e f.2) e) := by
  induction hes generalizing p e with
  | nil => exact hp
  | cons h _ ih =>
      rw [List.foldl_cons, List.foldl_cons, ← h.1]
      exact ih (expr?_merge hp h.2)

theorem forall_walk_merge {d : Dialect} {P : Node → Prop} (ha : ∀ l r, P (.and l r))
    (ho : ∀ l r, P (.or l r)) {p : Node} {calls : List (Connective × Node)}
    (hp : ∀ m ∈ p.walk d, P m) (hc : ∀ c ∈ calls, ∀ m ∈ c.2.walk d, P m) :
    ∀ m ∈ (calls.foldl (fun p c => c.1.merge p c.2) p).walk d, P m := by
  induction calls generalizing p with
  | nil => exact hp
  | cons c calls ih =>
      rw [List.forall_mem_cons] at hc
      refine ih ?_ hc.2
      obtain ⟨op, q⟩ := c
      cases op with
      | and =>
          show ∀ m ∈ (Node.and p q).walk d, P m
          rw [walk_eq, List.forall_mem_cons]
          exact ⟨ha p q, by simpa [parts, or_imp, forall_and] using ⟨hp, hc.1⟩⟩
      | or =>
          show ∀ m ∈ (Node.or p q).walk d, P m
          rw [walk_eq, List.forall_mem_cons]
          exact ⟨ho p q, by simpa [parts, or_imp, forall_and] using ⟨hp, hc.1⟩⟩

end Node

/-! ## Statements with one more clause -/

namespace Layout

/-- Clauses of which none is the given one. -/
def Lacks (c : Clause) (cs : List (Clause × List Item)) : Prop := ∀ x ∈ cs, x.1 ≠ c

/-- Clauses with one more among them, which was not there before. -/
def Inserts (c : Clause) (is : List Item) (cs ds : List (Clause × List Item)) : Prop :=
  ∃ as bs, cs = as ++ bs ∧ ds = as ++ (c, is) :: bs ∧ Lacks c as ∧ Lacks c bs

variable {c : Clause} {is : List Item} {cs ds : List (Clause × List Item)}

theorem lacks_clause {c' : Clause} (h : c' ≠ c) (js : Option (List Item)) :
    Lacks c (clause c' js) := by
  cases js with
  | none => exact List.forall_mem_nil _
  | some js =>
      intro x hx
      rw [List.mem_singleton.mp hx]
      exact h

theorem Lacks.append (h : Lacks c cs) (h' : Lacks c ds) : Lacks c (cs ++ ds) :=
  List.forall_mem_append.mpr ⟨h, h'⟩

theorem Lacks.clause (h : Lacks c cs) {c' : Clause} (hc : c' ≠ c) (js : Option (List Item)) :
    Lacks c (cs ++ Layout.clause c' js) := h.append (lacks_clause hc js)

theorem Lacks.inserts (h : Lacks c cs) : Inserts c is (cs ++ []) (cs ++ [(c, is)]) :=
  ⟨cs, [], rfl, rfl, h, List.forall_mem_nil _⟩

theorem Inserts.clause (h : Inserts c is cs ds) {c' : Clause} (hc : c' ≠ c)
    (js : Option (List Item)) :
    Inserts c is (cs ++ Layout.clause c' js) (ds ++ Layout.clause c' js) := by
  obtain ⟨as, bs, rfl, rfl, ha, hb⟩ := h
  exact ⟨as, bs ++ Layout.clause c' js, by simp, by simp, ha, hb.clause hc js⟩

theorem Inserts.find? (h : Inserts c is cs ds) {p : Clause × List Item → Bool}
    (hp : p (c, is) = false) : ds.find? p = cs.find? p := by
  obtain ⟨as, bs, rfl, rfl, -, -⟩ := h
  rw [List.find?_append, List.find?_append, List.find?_cons, hp]

theorem Lacks.lookup_eq_none (h : Lacks c cs) : cs.lookup c = none :=
  List.lookup_eq_none_iff.mpr fun x hx => bne_iff_ne.mpr (h x hx).symm

theorem Inserts.lookup_self (h : Inserts c is cs ds) :
    cs.lookup c = none ∧ ds.lookup c = some is := by
  obtain ⟨as, bs, rfl, rfl, ha, hb⟩ := h
  simp [List.lookup_append, ha.lookup_eq_none, hb.lookup_eq_none]

theorem Inserts.lookup_of_ne (h : Inserts c is cs ds) {k : Clause} (hk : k ≠ c) :
    ds.lookup k = cs.lookup k := by
  obtain ⟨as, bs, rfl, rfl, -, -⟩ := h
  simp [List.lookup_append, lookup_cons, hk]

end Layout

theorem mapM_insert {f g : Clause → Rendering} {c : Clause} {before behind : List Clause}
    {ps : List Piece} (hb : ∀ k ∈ before, g k = f k) (ha : ∀ k ∈ behind, g k = f k)
    (hf : f c = .ok []) (hg : g c = .ok ps) :
    (∃ e, (before ++ c :: behind).mapM f = .error e ∧ (before ++ c :: behind).mapM g = .error e) ∨
      ∃ pss qss, (before ++ c :: behind).mapM f = .ok (pss ++ [] :: qss) ∧
        (before ++ c :: behind).mapM g = .ok (pss ++ ps :: qss) := by
  rw [List.mapM_append, List.mapM_append, List.mapM_cons, List.mapM_cons, mapM_congr hb,
    mapM_congr ha, hf, hg]
  cases before.mapM f with
  | error e => exact .inl ⟨e, rfl, rfl⟩
  | ok pss =>
      cases behind.mapM f with
      | error e => exact .inl ⟨e, rfl, rfl⟩
      | ok qss => exact .inr ⟨pss, qss, rfl, rfl⟩

/-- A statement with one more clause fails as before, or has the pieces of the clause among those
that it had. -/
theorem Layout.render_of_inserts {d : Dialect} {b : Bool} {k : StatementKind} {c : Clause}
    {is : List Item} {cs ds : List (Clause × List Item)} {ps : List Piece}
    (hi : Inserts c is cs ds) (hc : c ∈ d.clauseOrder k) (hn : (d.clauseOrder k).Nodup)
    (hp : Item.renderAll d b is = .ok ps) :
    (∃ e, (statement d k cs).render d b = .error e ∧ (statement d k ds).render d b = .error e) ∨
      ∃ pss qss, (statement d k cs).render d b = .ok (Dialect.spaced (pss ++ qss)) ∧
        (statement d k ds).render d b = .ok (Dialect.spaced (pss ++ ps :: qss)) := by
  obtain ⟨before, behind, ho⟩ := List.append_of_mem hc
  rw [ho, List.nodup_middle, List.nodup_cons, List.mem_append, not_or] at hn
  have hne {order : List Clause} (hc : c ∉ order) : ∀ k ∈ order,
      Item.renderAll d b ((ds.lookup k).getD []) = Item.renderAll d b ((cs.lookup k).getD []) :=
    fun k hk => by rw [hi.lookup_of_ne fun h => hc (h ▸ hk)]
  have hcs : Item.renderAll d b ((cs.lookup c).getD []) = .ok [] := by
    rw [hi.lookup_self.1]
    rfl
  have hds : Item.renderAll d b ((ds.lookup c).getD []) = .ok ps := by
    rw [hi.lookup_self.2, ← hp]
    rfl
  have hm := mapM_insert (hne hn.1.1) (hne hn.1.2) hcs hds
  have hfind : ds.find? (fun x => !(d.clauseOrder k).contains x.1) =
      cs.find? fun x => !(d.clauseOrder k).contains x.1 := hi.find? (by simp [ho])
  rw [statement, statement, hfind]
  cases cs.find? fun x => !(d.clauseOrder k).contains x.1 with
  | some x => exact .inl ⟨_, rfl, rfl⟩
  | none =>
      simp only [Layout.render, List.mapM_map, ho, Function.comp_def]
      rcases hm with ⟨e, hc, hd⟩ | ⟨pss, qss, hc, hd⟩
      · exact .inl ⟨e, by rw [hc]; rfl, by rw [hd]; rfl⟩
      · refine .inr ⟨pss, qss, ?_, by rw [hd]; rfl⟩
        rw [hc]
        simp [Dialect.spaced, bind, Except.bind, pure, Except.pure]

open Layout in
theorem Select.inserts_where (q : Select Node) (p : Node) :
    Inserts .where [.part (.where p)] { q with whereClause := none }.layout
      { q with whereClause := some p }.layout := by
  iterate 6 refine Inserts.clause ?_ (by decide) _
  refine Lacks.inserts ?_
  iterate 5 refine Lacks.clause ?_ (by decide) _
  simp [Lacks]

open Layout in
theorem Update.inserts_where (q : Update Node) (as : List (Assignment Node)) (p : Node) :
    Inserts .where [.part (.where p)] ({ q with whereClause := none }.layout as)
      ({ q with whereClause := some p }.layout as) := by
  iterate 5 refine Inserts.clause ?_ (by decide) _
  refine Lacks.inserts ?_
  iterate 5 refine Lacks.clause ?_ (by decide) _
  simp [Lacks]

open Layout in
theorem Delete.inserts_where (q : Delete Node) (p : Node) :
    Inserts .where [.part (.where p)] { q with whereClause := none }.layout
      { q with whereClause := some p }.layout := by
  iterate 5 refine Inserts.clause ?_ (by decide) _
  refine Lacks.inserts ?_
  iterate 5 refine Lacks.clause ?_ (by decide) _
  simp [Lacks]

/-- In PostgreSQL, a statement with a predicate fails as before, or has a WHERE clause among its
clauses. -/
theorem Node.render_filtered {n p : Node} {ps : List Piece} (hn : n.isUnfiltered = true)
    (hp : p.render Engine.postgres.dialect true = .ok ps) :
    (∃ e, n.render Engine.postgres.dialect false = .error e ∧
        (n.filtered p).render Engine.postgres.dialect false = .error e) ∨
      ∃ pss qss, n.render Engine.postgres.dialect false = .ok (Dialect.spaced (pss ++ qss)) ∧
        (n.filtered p).render Engine.postgres.dialect false =
          .ok (Dialect.spaced (pss ++ (.text "WHERE " :: ps) :: qss)) := by
  have hw : Item.renderAll Engine.postgres.dialect true [.part (.where p)] =
      .ok (.text "WHERE " :: ps) := by
    rw [Item.renderAll_cons, Item.render_part, render, hp]
    show Except.ok _ = _
    simp
  have hrender (m : Node) (hm : m.kind.isStatement = true)
      (hd : m.kind.delimits = true) (hg : Engine.postgres.dialect.supports m.kind = true) :
      m.render Engine.postgres.dialect false =
        (m.layout Engine.postgres.dialect).render Engine.postgres.dialect true := by
    rw [render_eq, Dialect.gate, if_pos hg, hd]
    rfl
  cases n
  case select q =>
    have hq : { q with whereClause := none } = q := by rw [← Option.isNone_iff_eq_none.mp hn]
    rw [hrender _ rfl rfl rfl, filtered, hrender _ rfl rfl rfl, layout, layout]
    have hi := q.inserts_where p
    rw [hq] at hi
    exact Layout.render_of_inserts hi (by decide) (by decide) hw
  case update q =>
    have hq : { q with whereClause := none } = q := by rw [← Option.isNone_iff_eq_none.mp hn]
    have hi (as : List (Assignment Node)) := q.inserts_where as p
    rw [hq] at hi
    rw [hrender _ rfl rfl rfl, filtered, hrender _ rfl rfl rfl, layout, layout]
    rcases q.assignments with _ | _ | ⟨a, as⟩
    · exact .inl ⟨_, rfl, rfl⟩
    · exact .inl ⟨_, rfl, rfl⟩
    · exact Layout.render_of_inserts (hi _) (by decide) (by decide) hw
  case delete q =>
    have hq : { q with whereClause := none } = q := by rw [← Option.isNone_iff_eq_none.mp hn]
    rw [hrender _ rfl rfl rfl, filtered, hrender _ rfl rfl rfl, layout, layout]
    have hi := q.inserts_where p
    rw [hq] at hi
    exact Layout.render_of_inserts hi (by decide) (by decide) hw
  all_goals cases hn

/-! ## The text of a predicate -/

namespace Node

theorem expr?_of_mem_exprs? {ns : List Node} {es : List Expr} (h : Node.exprs? ns = some es)
    {m : Node} (hm : m ∈ ns) : ∃ f, m.expr? = some f := by
  induction ns generalizing es with
  | nil => cases hm
  | cons n ns ih =>
      obtain ⟨e, fs, he, hfs, -⟩ := exprs?_cons_eq_some.mp h
      cases hm with
      | head => exact ⟨e, he⟩
      | tail _ hm => exact ih hfs hm

theorem isLexical_of_mem_walk_table (d : Dialect) (t : Table) :
    ∀ k ∈ (Node.table t).walk d, k.isLexical = true := by
  obtain ⟨_ | schema, name⟩ := t <;> simp [walk_eq, parts, isLexical]

/-- The parts of a predicate are predicates, names and operators. -/
theorem expr?_of_mem_parts {d : Dialect} {n m : Node} {e : Expr} (he : n.expr? = some e)
    (hm : m ∈ n.parts d) :
    (∃ f, m.expr? = some f) ∨ ∀ k ∈ m.walk d, k.isLexical = true := by
  cases n
  case column c =>
    right
    rw [parts, List.mem_singleton] at hm
    simp [hm, walk_eq, parts, isLexical]
  case reference t c =>
    cases c
    case column c =>
      rw [parts, List.mem_append, List.mem_map, List.mem_singleton] at hm
      rcases hm with ⟨t, -, rfl⟩ | rfl
      · exact .inr (isLexical_of_mem_walk_table d t)
      · exact .inl ⟨_, rfl⟩
    all_goals cases he
  case value v immediate => cases hm
  case binary l op r =>
    obtain ⟨-, f, g, hf, hg, -⟩ := expr?_binary_eq_some.mp he
    simp only [parts, List.mem_cons, List.not_mem_nil, or_false] at hm
    rcases hm with rfl | rfl | rfl
    · exact .inl ⟨f, hf⟩
    · right
      simp [walk_eq, parts, isLexical]
    · exact .inl ⟨g, hg⟩
  case and l r =>
    obtain ⟨f, g, hf, hg, -⟩ := expr?_and_eq_some.mp he
    simp only [parts, List.mem_cons, List.not_mem_nil, or_false] at hm
    rcases hm with rfl | rfl
    · exact .inl ⟨f, hf⟩
    · exact .inl ⟨g, hg⟩
  case or l r =>
    obtain ⟨f, g, hf, hg, -⟩ := expr?_or_eq_some.mp he
    simp only [parts, List.mem_cons, List.not_mem_nil, or_false] at hm
    rcases hm with rfl | rfl
    · exact .inl ⟨f, hf⟩
    · exact .inl ⟨g, hg⟩
  case unary op n =>
    obtain ⟨f, hf, -⟩ := expr?_unary_eq_some.mp he
    simp only [parts, List.mem_cons, List.not_mem_nil, or_false] at hm
    rcases hm with rfl | rfl
    · right
      simp [walk_eq, parts, isLexical]
    · exact .inl ⟨f, hf⟩
  case parens n =>
    rw [parts, List.mem_singleton] at hm
    exact .inl ⟨e, hm ▸ he⟩
  case function name ns =>
    obtain ⟨es, hes, -⟩ := expr?_function_eq_some.mp he
    exact .inl (expr?_of_mem_exprs? hes hm)
  all_goals cases he

theorem isLexical_of_expr? {d : Dialect} {n : Node} {e : Expr} (he : n.expr? = some e)
    (hc : ∀ m ∈ n.walk d, m.isCallable = true) : ∀ m ∈ n.walk d, m.isLexical = true := by
  induction n using Node.induction_parts d generalizing e with
  | step n ih =>
      rw [walk_eq, List.forall_mem_cons] at hc ⊢
      refine ⟨?_, fun m hm => ?_⟩
      · cases n <;> try rfl
        case raw => cases he
        case reference t c => cases c <;> first | rfl | cases he
        case function name ns =>
          have hcall : Text.isCallable name = true := hc.1
          simp only [Text.isCallable, Bool.and_eq_true] at hcall
          exact hcall.1.2
      · obtain ⟨k, hk, hm⟩ := List.mem_flatMap.mp hm
        rcases expr?_of_mem_parts he hk with ⟨f, hf⟩ | hl
        · exact ih k hk hf (fun m hm => hc.2 m (List.mem_flatMap.mpr ⟨k, hk, hm⟩)) m hm
        · exact hl m hm

/-- The text of a predicate is read as its expression. -/
theorem read?_render {p : Node} {e : Expr} {ps : List Piece} {vs : List Value} {k : Nat}
    (he : p.expr? = some e) (hc : ∀ m ∈ p.walk Engine.postgres.dialect, m.isCallable = true)
    (hr : p.render Engine.postgres.dialect true = .ok ps) (hk : Piece.Binds vs k ps) :
    Expr.read? Engine.postgres.dialect vs (Piece.write Engine.postgres.dialect k ps) = some e := by
  obtain ⟨qs, hq, hs⟩ := render_spells he hc vs
  rw [hr] at hq
  cases hq
  obtain ⟨is, hi, hsp⟩ := hs k hk
  have hread := (read_render (isLexical_of_expr? he hc) hr).1 k
  rw [Expr.read?, hread.scan?_eq]
  exact hi.ofTokens?_eq hsp

example : Expr.read? Engine.postgres.dialect [.int 7] "\"a\" OR NOT \"b\" = -$1 AND (\"c\")" =
    some (.combine .or (.column ["a"]) (.combine .and
      (.not (.binary (.column ["b"]) .eq (.neg (.value (.int 7))))) (.column ["c"]))) := by cbv

end Node

/-! ## Statements with merged predicates -/

theorem intercalate_cons {α : Type} (s y : List α) (ys : List (List α)) :
    List.intercalate s (y :: ys) = y ++ ys.flatMap (s ++ ·) := by
  induction ys generalizing y with
  | nil => simp
  | cons z ys ih => simp [List.intercalate_cons_cons, ih]

theorem intercalate_append_cons {α : Type} (s y : List α) (xs ys : List (List α)) :
    List.intercalate s (xs ++ y :: ys) =
      xs.flatMap (· ++ s) ++ (y ++ ys.flatMap (s ++ ·)) := by
  induction xs with
  | nil => exact intercalate_cons s y ys
  | cons x xs ih =>
      rw [List.flatMap_cons, List.append_assoc, ← ih, List.cons_append, intercalate_cons]
      cases xs <;> simp [intercalate_cons]

namespace Piece

/-- The clauses before one that leaves some text. -/
def leading (pss : List (List Piece)) : List Piece :=
  (pss.filter fun ps => !ps.all isEmpty).flatMap (· ++ [.text " "])

/-- The clauses behind one that leaves some text. -/
def trailing (pss : List (List Piece)) : List Piece :=
  (pss.filter fun ps => !ps.all isEmpty).flatMap ([.text " "] ++ ·)

/-- A clause that leaves some text stands between the clauses around it. -/
theorem spaced_append_cons (pss qss : List (List Piece)) {ps : List Piece}
    (hp : ps.all isEmpty = false) :
    Dialect.spaced (pss ++ ps :: qss) = leading pss ++ (ps ++ trailing qss) := by
  have hn : (!ps.all isEmpty) = true := by rw [hp]; rfl
  rw [Dialect.spaced, List.filter_append, List.filter_cons, if_pos hn, intercalate_append_cons]
  rfl

theorem boundValues_leading (pss : List (List Piece)) :
    boundValues (leading pss) = boundValues pss.flatten := by
  rw [leading]
  induction pss with
  | nil => rfl
  | cons rs pss ih =>
      rw [List.flatten_cons, boundValues_append, List.filter_cons]
      split
      · rw [List.flatMap_cons, boundValues_append, boundValues_append, ih]
        simp [boundValues, bound?]
      · rename_i he
        have hrs : boundValues rs = [] := by
          rw [← boundValues_leaves, leaves_of_isEmpty (by simpa using he)]
          rfl
        rw [ih, hrs, List.nil_append]

theorem exists_spaced (pss qss : List (List Piece)) {ps : List Piece}
    (hp : ps.all isEmpty = false) :
    ∃ us ws, Dialect.spaced (pss ++ ps :: qss) = us ++ (ps ++ ws) ∧
      boundValues us = boundValues pss.flatten :=
  ⟨leading pss, trailing qss, spaced_append_cons pss qss hp, boundValues_leading pss⟩

end Piece

namespace Node

/-- Adds predicates one after another. -/
def withPredicates (n : Node) (calls : List (Connective × Node)) : Node :=
  calls.foldl withPredicate n

/-- A SELECT, UPDATE or DELETE without a WHERE clause to which predicates are added compiles in
PostgreSQL as before, or fails as before, but for a WHERE clause among its clauses. The text of
the clause is read as the expressions of the predicates, from the left to the right, with the
connectives of the additions between them. -/
theorem read?_withPredicates {n : Node} (hn : n.isUnfiltered = true) (op : Connective) {p : Node}
    {e : Expr} {calls : List (Connective × Node)} {es : List (Connective × Expr)}
    (he : p.expr? = some e)
    (hes : List.Forall₂ (fun c f => c.1 = f.1 ∧ c.2.expr? = some f.2) calls es)
    (hp : ∀ m ∈ p.walk Engine.postgres.dialect, m.isCallable = true)
    (hc : ∀ c ∈ calls, ∀ m ∈ c.2.walk Engine.postgres.dialect, m.isCallable = true) :
    (∃ err, n.compile Engine.postgres.dialect = .error err ∧
        (n.withPredicates ((op, p) :: calls)).compile Engine.postgres.dialect = .error err) ∨
      ∃ pss ps qss before text behind vs,
        n.render Engine.postgres.dialect false = .ok (Dialect.spaced (pss ++ qss)) ∧
        (n.withPredicates ((op, p) :: calls)).render Engine.postgres.dialect false =
          .ok (Dialect.spaced (pss ++ (.text "WHERE " :: ps) :: qss)) ∧
        text = Piece.write Engine.postgres.dialect
          ((Piece.boundValues pss.flatten).length + 1) ps ∧
        (n.withPredicates ((op, p) :: calls)).compile Engine.postgres.dialect =
          .ok ⟨before ++ "WHERE " ++ text ++ behind, vs⟩ ∧
        Expr.read? Engine.postgres.dialect vs text =
          some (es.foldl (fun e f => .combine f.1 e f.2) e) := by
  have hm : n.withPredicates ((op, p) :: calls) =
      n.filtered (calls.foldl (fun p c => c.1.merge p c.2) p) := by
    rw [withPredicates, List.foldl_cons, withPredicate_of_isUnfiltered hn, foldl_withPredicate]
  have hcall := forall_walk_merge (d := Engine.postgres.dialect)
    (P := fun m => m.isCallable = true) (fun _ _ => rfl) (fun _ _ => rfl) hp hc
  have hexpr := expr?_foldl he hes
  rw [hm]
  generalize calls.foldl (fun p c => c.1.merge p c.2) p = q at hcall hexpr ⊢
  obtain ⟨ps, hr, -⟩ := render_spells hexpr hcall []
  rw [compile, compile]
  rcases render_filtered hn hr with ⟨err, h, h'⟩ | ⟨pss, qss, h, h'⟩
  · exact .inl ⟨err, by rw [h]; rfl, by rw [h']; rfl⟩
  · right
    have hw : (Piece.text "WHERE " :: ps).all Piece.isEmpty = false := rfl
    obtain ⟨us, ws, hs, hu⟩ := Piece.exists_spaced pss qss hw
    have hb : Piece.boundValues (us ++ (.text "WHERE " :: ps ++ ws)) =
        Piece.boundValues us ++ Piece.boundValues ps ++ Piece.boundValues ws := by
      rw [Piece.boundValues_append, Piece.boundValues_append, List.append_assoc]
      rfl
    have hk : Piece.Binds (Piece.boundValues (us ++ (.text "WHERE " :: ps ++ ws)))
        ((Piece.boundValues us).length + 1) ps :=
      ⟨Piece.boundValues us, Piece.boundValues ws, hb, rfl⟩
    refine ⟨pss, ps, qss, Piece.write Engine.postgres.dialect 1 us,
      Piece.write Engine.postgres.dialect ((Piece.boundValues us).length + 1) ps,
      Piece.write Engine.postgres.dialect
        ((Piece.boundValues us).length + 1 + (Piece.boundValues ps).length) ws,
      Piece.boundValues (us ++ (.text "WHERE " :: ps ++ ws)), h, h', by rw [hu], ?_,
      read?_render hexpr hcall hr hk⟩
    rw [h', hs]
    refine congrArg Except.ok (congrArg (Compiled.mk · _) ?_)
    rw [Piece.write_append, List.cons_append, Piece.write, Piece.write_append, Nat.add_comm 1]
    simp only [String.append_assoc]

/-- A deletion of all rows. -/
def deletionSample : Node := .delete { fromItems := [.table ⟨none, ⟨"t"⟩⟩] }

/-- A predicate, and two that are added behind it. -/
def predicateSample : Node := .binary (.column ⟨⟨"a"⟩⟩) .eq (.value (.int 1) false)

def laterSample : List (Connective × Node) :=
  [(.or, .unary .not (.column ⟨⟨"b"⟩⟩)),
   (.and, .binary (.unary .neg (.column ⟨⟨"c"⟩⟩)) .lt (.function "abs" [.value (.int 2) false]))]

theorem read?_withPredicates_deletionSample :
    (deletionSample.withPredicates ((.and, predicateSample) :: laterSample)).compile
        Engine.postgres.dialect =
      .ok ⟨"DELETE FROM \"t\" WHERE (\"a\" = $1 OR NOT \"b\") AND -\"c\" < abs($2)",
        [.int 1, .int 2]⟩ ∧
    ∃ pss ps qss before text behind vs,
      deletionSample.render Engine.postgres.dialect false = .ok (Dialect.spaced (pss ++ qss)) ∧
      (deletionSample.withPredicates ((.and, predicateSample) :: laterSample)).render
          Engine.postgres.dialect false =
        .ok (Dialect.spaced (pss ++ (.text "WHERE " :: ps) :: qss)) ∧
      text = Piece.write Engine.postgres.dialect
        ((Piece.boundValues pss.flatten).length + 1) ps ∧
      (deletionSample.withPredicates ((.and, predicateSample) :: laterSample)).compile
          Engine.postgres.dialect =
        .ok ⟨before ++ "WHERE " ++ text ++ behind, vs⟩ ∧
      Expr.read? Engine.postgres.dialect vs text =
        some (.combine .and
          (.combine .or (.binary (.column ["a"]) .eq (.value (.int 1))) (.not (.column ["b"])))
          (.binary (.neg (.column ["c"])) .lt (.call "abs" [.value (.int 2)]))) := by
  have hn : deletionSample.compile Engine.postgres.dialect =
      .ok ⟨"DELETE FROM \"t\"", []⟩ := by cbv
  have hp : (predicateSample.walk Engine.postgres.dialect).all isCallable = true := by cbv
  have hc : laterSample.all (fun c => (c.2.walk Engine.postgres.dialect).all isCallable) =
      true := by cbv
  simp only [List.all_eq_true] at hp hc
  have hes : List.Forall₂ (fun c f => c.1 = f.1 ∧ c.2.expr? = some f.2) laterSample
      [(.or, .not (.column ["b"])),
       (.and, .binary (.neg (.column ["c"])) .lt (.call "abs" [.value (.int 2)]))] :=
    .cons ⟨rfl, rfl⟩ (.cons ⟨rfl, rfl⟩ .nil)
  have he : predicateSample.expr? = some (.binary (.column ["a"]) .eq (.value (.int 1))) := rfl
  refine ⟨by cbv, ?_⟩
  rcases read?_withPredicates (n := deletionSample) rfl .and he hes hp hc with ⟨err, h, -⟩ | h
  · rw [hn] at h
    cases h
  · exact h

/-- The name of a function is written as it is, so a call of a function with the name of an
operator is read as the operator. -/
theorem read?_of_call_not :
    (Node.function "NOT" [.column ⟨⟨"a"⟩⟩]).expr? = some (.call "NOT" [.column ["a"]]) ∧
    (deletionSample.withPredicates
        [(.and, .function "NOT" [.column ⟨⟨"a"⟩⟩])]).compile Engine.postgres.dialect =
      .ok ⟨"DELETE FROM \"t\" WHERE NOT(\"a\")", []⟩ ∧
    Expr.read? Engine.postgres.dialect [] "NOT(\"a\")" = some (.not (.column ["a"])) ∧
    Expr.not (.column ["a"]) ≠ .call "NOT" [.column ["a"]] :=
  ⟨rfl, by cbv, by cbv, by simp⟩

end Node

end SqlTree
