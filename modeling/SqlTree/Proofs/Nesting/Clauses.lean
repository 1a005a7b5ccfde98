import SqlTree.Proofs.Building.Completeness
import SqlTree.Proofs.Lexical.Digits
import SqlTree.Proofs.Nesting.Places

/-! # Statements clause by clause

The text of a statement is that of its clauses, each rendered on its own, in the order of the
dialect and with a space between each two that leave any text. What a clause is rendered with
depends on the clause and its parts only, not on the statement around them. -/

namespace SqlTree

/-! ## Texts that are not empty -/

namespace Text

theorem append_ne_empty_of_left {s : String} (h : s ≠ "") (t : String) : s ++ t ≠ "" :=
  fun he => h (String.append_eq_empty_iff.mp he).1

theorem append_ne_empty_of_right (s : String) {t : String} (h : t ≠ "") : s ++ t ≠ "" :=
  fun he => h (String.append_eq_empty_iff.mp he).2

theorem ofList_ne_empty {cs : List Char} (h : cs ≠ []) : String.ofList cs ≠ "" := by
  rwa [Ne, ← String.toList_eq_nil_iff, String.toList_ofList]

theorem toString_ne_empty (n : Nat) : toString n ≠ "" := ofList_ne_empty Nat.toDigits_ne_nil

theorem toString_int_ne_empty (n : Int) : toString n ≠ "" := by
  cases n with
  | ofNat k => exact toString_ne_empty k
  | negSucc k => exact append_ne_empty_of_left (by decide) _

end Text

open Text

theorem Decimal.bitsText_ne_empty (bits : UInt64) : bitsText sqlStyle bits ≠ "" := by
  by_cases h : isFinite bits = true
  · obtain ⟨cs, hcs, ht⟩ := bitsText_of_isFinite h
    rw [ht]
    refine append_ne_empty_of_right _ (ofList_ne_empty ?_)
    cases hcs with
    | whole h => exact h.1
    | fraction h h' => simp
  · have hle : ¬ bits.toNat % signBit < infinityBits := fun hlt => h (decide_eq_true hlt)
    rw [bitsText]
    split
    · decide
    · rw [if_pos (by omega)]
      exact append_ne_empty_of_right _ (by decide)

namespace Dialect

theorem identifier_ne_empty (d : Dialect) (s : String) : d.identifier s ≠ "" :=
  ofList_ne_empty (List.cons_ne_nil _ _)

theorem stringLiteral_ne_empty (d : Dialect) (s : String) : d.stringLiteral s ≠ "" :=
  ofList_ne_empty (List.cons_ne_nil _ _)

theorem literal_ne_empty {d : Dialect} (hb : ∀ b, d.boolLiteral b ≠ "") (v : Value) :
    d.literal v ≠ "" := by
  cases v with
  | null => exact (by decide : "NULL" ≠ "")
  | bool b => exact hb b
  | int n => exact toString_int_ne_empty n.toInt
  | float x => exact Decimal.bitsText_ne_empty x.toBits
  | text | uuid | instant | json => exact d.stringLiteral_ne_empty _
  | bytes bs => exact append_ne_empty_of_left (append_ne_empty_of_left (by decide) _) _
  | array vs => exact append_ne_empty_of_left (append_ne_empty_of_left (by decide) _) _

theorem Provided.boolLiteral_ne_empty {d : Dialect} (h : d.Provided) (b : Bool) :
    d.boolLiteral b ≠ "" := by
  have he (e : Engine) : e.dialect.boolLiteral b ≠ "" := by
    cases e <;> cases b <;> decide
  cases h with
  | engine e => exact he e
  | profile p => exact he p.base

end Dialect

theorem Placeholder.text_ne_empty (p : Placeholder) (k : Nat) : p.text k ≠ "" := by
  cases p with
  | question => exact (by decide : "?" ≠ "")
  | numbered sign => exact append_ne_empty_of_right sign (toString_ne_empty k)

namespace Piece

variable {d : Dialect}

/-- Pieces leave no text only if each of them leaves none. -/
theorem write_eq_empty (hb : ∀ b, d.boolLiteral b ≠ "") {k : Nat} {ps : List Piece} :
    write d k ps = "" ↔ ps.all isEmpty = true := by
  induction ps generalizing k with
  | nil => simp [write]
  | cons p ps ih =>
      cases p with
      | text s => simp [write, isEmpty, String.append_eq_empty_iff, ih]
      | name s =>
          exact iff_of_false (append_ne_empty_of_left (d.identifier_ne_empty s) _)
            (by simp [isEmpty])
      | literal v =>
          exact iff_of_false (append_ne_empty_of_left (Dialect.literal_ne_empty hb v) _)
            (by simp [isEmpty])
      | bound v =>
          exact iff_of_false (append_ne_empty_of_left (d.placeholder.text_ne_empty k) _)
            (by simp [isEmpty])

/-! ## Texts with spaces between them -/

/-- The texts of lists of pieces, with the positions of bound values counted through all of
them. -/
def writeEach (d : Dialect) : Nat → List (List Piece) → List String
  | _, [] => []
  | k, ps :: pss => write d k ps :: writeEach d (k + (boundValues ps).length) pss

theorem write_intercalate (k : Nat) (pss : List (List Piece)) :
    write d k (List.intercalate [.text " "] pss) = " ".intercalate (writeEach d k pss) := by
  induction pss generalizing k with
  | nil => rfl
  | cons ps pss ih =>
      cases pss with
      | nil => rw [List.intercalate_singleton, writeEach, writeEach, String.intercalate_singleton]
      | cons qs pss =>
          rw [List.intercalate_cons_cons, writeEach, writeEach, String.intercalate_cons_cons,
            ← writeEach, ← ih, List.append_assoc, write_append, List.singleton_append, write,
            String.append_assoc]

theorem boundValues_of_all_isEmpty {ps : List Piece} (h : ps.all isEmpty = true) :
    boundValues ps = [] := by
  rw [← boundValues_leaves, leaves_of_isEmpty h]
  rfl

theorem writeEach_filter (hb : ∀ b, d.boolLiteral b ≠ "") (k : Nat) (pss : List (List Piece)) :
    writeEach d k (pss.filter fun ps => !ps.all isEmpty) =
      (writeEach d k pss).filter (· ≠ "") := by
  induction pss generalizing k with
  | nil => rfl
  | cons ps pss ih =>
      rw [writeEach]
      cases he : ps.all isEmpty with
      | true =>
          have hw : write d k ps = "" := (write_eq_empty hb).mpr he
          rw [List.filter_cons_of_neg (by simp [he]), List.filter_cons_of_neg (by simp [hw]), ih,
            boundValues_of_all_isEmpty he]
          rfl
      | false =>
          have hw : write d k ps ≠ "" := fun h => by
            rw [(write_eq_empty hb).mp h] at he
            cases he
          rw [List.filter_cons_of_pos (by simp [he]), List.filter_cons_of_pos (by simpa using hw),
            writeEach, ih]

/-- Joined clauses leave their texts with single spaces, without those that are empty. -/
theorem write_spaced (hb : ∀ b, d.boolLiteral b ≠ "") (k : Nat) (pss : List (List Piece)) :
    write d k (Dialect.spaced pss) = " ".intercalate ((writeEach d k pss).filter (· ≠ "")) := by
  rw [Dialect.spaced, write_intercalate, writeEach_filter hb]

theorem boundValues_spaced (pss : List (List Piece)) :
    boundValues (Dialect.spaced pss) = boundValues pss.flatten := by
  rw [← boundValues_leaves, leaves_spaced, ← boundValues_leaves pss.flatten, leaves,
    List.filter_flatten, List.flatMap_def]
  rfl

end Piece

/-! ## The clauses of a statement -/

/-- The kind of a statement. -/
def Node.statement? : Node → Option StatementKind
  | .select _ => some .select
  | .insert _ => some .insert
  | .update _ => some .update
  | .delete _ => some .delete
  | _ => none

/-- The clauses that a statement carries. -/
def Node.carried : Node → List Clause
  | .select q => q.carried
  | .insert q => q.carried
  | .update q => q.carried
  | .delete q => q.carried
  | _ => []

/-- The nodes that a clause of a statement is written with. -/
def Node.clauseParts : Node → Clause → List Node
  | .select q => q.clauseParts
  | .insert q => q.clauseParts
  | .update q => q.clauseParts
  | .delete q => q.clauseParts
  | _ => fun _ => []

/-- The keyword of a statement. -/
def Node.keyword (d : Dialect) : Node → String
  | .select q => if q.distinct then "SELECT DISTINCT" else "SELECT"
  | .insert q => if q.ignore then d.insertIgnore.getD "" else "INSERT"
  | .update _ => "UPDATE"
  | .delete _ => "DELETE"
  | _ => ""

open Item in
/-- A clause around its parts. Clauses that are not listed are a single part with a keyword of its
own. -/
def Clause.items (keyword : String) (ns : List Node) : Clause → List Item
  | .keyword => [text keyword]
  | .selections => if ns.isEmpty then [text "*"] else separated ", " ns
  | .into => listed "INTO " ns
  | .columns => if ns.isEmpty then [] else tuple ns
  | .values => if ns.isEmpty then [text "DEFAULT VALUES"] else ns.map .part
  | .set => listed "SET " ns
  | .joins | .endModifiers => separated " " ns
  | _ => ns.map .part

/-- A clause of a statement on its own. -/
def Node.clauseItems (d : Dialect) (n : Node) (c : Clause) : List Item :=
  if c ∈ n.carried then c.items (n.keyword d) (n.clauseParts c) else []

/-- The pieces of a clause of a statement on its own. -/
def Node.renderClause (d : Dialect) (n : Node) (c : Clause) : Rendering :=
  Item.renderAll d n.kind.delimits (n.clauseItems d c)

section Lookup

open Item Layout

theorem getD_single {α : Type} (make : α → Node) (o : Option α) :
    ((o.map make).map fun n => [part n]).getD [] =
      if o = none then [] else o.toList.map (part ∘ make) := by
  cases o <;> rfl

theorem Select.lookup_layout (d : Dialect) (q : Select Node) (c : Clause) :
    (q.layout.lookup c).getD [] = (Node.select q).clauseItems d c := by
  cases c
  all_goals simp [layout, List.lookup_append, lookup_clause, lookup_single, lookup_cons,
    Node.clauseItems, Node.carried, carried, Clause.present, Node.clauseParts, clauseParts,
    Clause.items, Node.keyword, -Option.map_map]
  case selections => rcases q.selections with _ | _ | ⟨n, ns⟩ <;> simp
  case joins => cases q.joins <;> simp
  case endModifiers => cases q.endModifiers <;> simp
  all_goals exact getD_single _ _

theorem Insert.lookup_layout (d : Dialect) (q : Insert Node) (c : Clause) :
    ((q.layout ((Node.insert q).keyword d)).lookup c).getD [] =
      (Node.insert q).clauseItems d c := by
  cases c
  all_goals simp [layout, List.lookup_append, lookup_clause, lookup_single, lookup_cons,
    Node.clauseItems, Node.carried, carried, Clause.present, Node.clauseParts, clauseParts,
    Clause.items, -Option.map_map]
  case into => rfl
  case columns => rcases q.columns with _ | _ | ⟨n, ns⟩ <;> simp
  case values => cases q.source <;> simp
  case endModifiers => cases q.endModifiers <;> simp
  all_goals exact getD_single _ _

theorem Update.lookup_layout (d : Dialect) {q : Update Node} {as : List (Assignment Node)}
    (h : q.assignments = some as) (c : Clause) :
    ((q.layout as).lookup c).getD [] = (Node.update q).clauseItems d c := by
  cases c
  all_goals simp [layout, List.lookup_append, lookup_clause, lookup_single, lookup_cons,
    Node.clauseItems, Node.carried, carried, Clause.present, Node.clauseParts, clauseParts,
    Clause.items, Node.keyword, h, -Option.map_map]
  case joins => cases q.joins <;> simp
  case endModifiers => cases q.endModifiers <;> simp
  all_goals exact getD_single _ _

theorem Delete.lookup_layout (d : Dialect) (q : Delete Node) (c : Clause) :
    (q.layout.lookup c).getD [] = (Node.delete q).clauseItems d c := by
  cases c
  all_goals simp [layout, List.lookup_append, lookup_clause, lookup_single, lookup_cons,
    Node.clauseItems, Node.carried, carried, Clause.present, Node.clauseParts, clauseParts,
    Clause.items, Node.keyword, -Option.map_map]
  case joins => cases q.joins <;> simp
  case endModifiers => cases q.endModifiers <;> simp
  all_goals exact getD_single _ _

end Lookup

/-- A statement that renders has a place for each of its clauses. -/
theorem Layout.statement_eq_clauses {d : Dialect} {b : Bool} {k : StatementKind}
    {cs : List (Clause × List Item)} {carried : List Clause} {items : Clause → List Item}
    {ps : List Piece} (hc : cs.map (·.1) = carried) (hi : ∀ c, (cs.lookup c).getD [] = items c)
    (h : (statement d k cs).render d b = .ok ps) :
    carried ⊆ d.clauseOrder k ∧
      statement d k cs = .clauses ((d.clauseOrder k).map fun c => (c, items c)) := by
  rw [statement] at h ⊢
  cases hf : cs.find? fun c => !(d.clauseOrder k).contains c.1 with
  | some c =>
      rw [hf] at h
      cases h
  | none =>
      refine ⟨fun c hm => ?_, by simp only [hi]⟩
      obtain ⟨x, hx, rfl⟩ := List.mem_map.mp (hc ▸ hm)
      simpa using List.find?_eq_none.mp hf x hx

theorem Insert.keyword_eq {d : Dialect} {q : Insert Node} {keyword : String}
    (h : (if q.ignore then d.insertIgnore else some "INSERT") = some keyword) :
    (Node.insert q).keyword d = keyword := by
  rw [Node.keyword]
  split at h
  · rename_i hi
    rw [if_pos hi, h, Option.getD_some]
  · rename_i hi
    cases h
    rw [if_neg hi]

/-- A statement that renders has a place for each clause it carries, and the clauses of the order
are laid out on their own. -/
theorem Node.layout_eq_clauses {d : Dialect} {n : Node} {k : StatementKind} {ps : List Piece}
    (hk : n.statement? = some k) (h : n.renderOwn d = .ok ps) :
    n.carried ⊆ d.clauseOrder k ∧
      n.layout d = .clauses ((d.clauseOrder k).map fun c => (c, n.clauseItems d c)) := by
  rw [renderOwn] at h
  cases n
  case select q | delete q =>
    cases hk
    exact Layout.statement_eq_clauses q.map_fst_layout (q.lookup_layout d) h
  case update q =>
    cases hk
    rw [layout] at h ⊢
    split at h
    · cases h
    · cases h
    · rename_i as _ ha
      exact Layout.statement_eq_clauses (q.map_fst_layout as) (Update.lookup_layout d ha) h
  case insert q =>
    cases hk
    rw [layout] at h ⊢
    split at h
    · cases h
    · rename_i hsource
      rw [if_neg hsource]
      split at h
      · cases h
      · rename_i keyword hkeyword
        cases Insert.keyword_eq hkeyword
        exact Layout.statement_eq_clauses (q.map_fst_layout _) (q.lookup_layout d) h
  all_goals cases hk

theorem eq_map_of_forall₂ {α β : Type} {R : α → β → Prop} {f : α → β}
    (hR : ∀ a b, R a b → b = f a) {xs : List α} {ys : List β} (h : List.Forall₂ R xs ys) :
    ys = xs.map f := by
  induction h with
  | nil => rfl
  | cons hab _ ih => rw [List.map_cons, hR _ _ hab, ih]

/-- The own pieces of a statement are those of its clauses, each rendered on its own. -/
theorem Node.exists_renderClause {d : Dialect} {n : Node} {k : StatementKind} {ps : List Piece}
    (hk : n.statement? = some k) (h : n.renderOwn d = .ok ps) :
    ∃ clauses : Clause → List Piece, (∀ c, n.renderClause d c = .ok (clauses c)) ∧
      (∀ c ∉ n.carried, clauses c = []) ∧
      ps = Dialect.spaced ((d.clauseOrder k).map clauses) := by
  obtain ⟨hs, hl⟩ := layout_eq_clauses hk h
  rw [renderOwn, hl, Layout.render_clauses_eq_ok] at h
  obtain ⟨pss, hpss, rfl⟩ := h
  have hnil (c : Clause) (hc : c ∉ n.carried) : n.renderClause d c = .ok [] := by
    rw [renderClause, clauseItems, if_neg hc]
    rfl
  have hplaced (c : Clause) (hc : c ∈ d.clauseOrder k) : ∃ ps, n.renderClause d c = .ok ps := by
    obtain ⟨cs, ds, hcs⟩ := List.append_of_mem hc
    rw [hcs, List.map_append, List.map_cons] at hpss
    obtain ⟨_, ps, _, -, hp, -, -⟩ := exists_forall₂_append_cons hpss
    exact ⟨ps, hp⟩
  have hall (c : Clause) : ∃ ps, n.renderClause d c = .ok ps := by
    by_cases hc : c ∈ n.carried
    · exact hplaced c (hs hc)
    · exact ⟨[], hnil c hc⟩
  choose clauses hclauses using hall
  refine ⟨clauses, hclauses, fun c hc => ?_, congrArg Dialect.spaced ?_⟩
  · exact Except.ok.inj ((hclauses c).symm.trans (hnil c hc))
  · refine eq_map_of_forall₂ (fun c ps hp => ?_) (List.forall₂_map_left_iff.mp hpss)
    exact Except.ok.inj (hp.symm.trans (hclauses c))

/-! ## Compiled trees -/

/-- Where the statement `m` stands in the compiled text of `n`, there are the texts of its clauses
in the order of the dialect, each rendered on its own with the positions of bound values counted
on from the clause before, and a single space between each two that are not empty. The parameters
follow the same order. A clause that the statement does not carry leaves nothing. -/
def Compiled.HasClauses (c : Compiled) (d : Dialect) (n m : Node) (k : StatementKind) : Prop :=
  ∃ clauses : Clause → List Piece, (∀ x, m.renderClause d x = .ok (clauses x)) ∧
    (∀ x ∉ m.carried, clauses x = []) ∧
    ∀ o us vs, n.Stands d o us m vs →
      let own := (d.clauseOrder k).map clauses
      let start := 1 + (Piece.boundValues us).length
      c.sql = Piece.write d 1 us ++
          " ".intercalate ((Piece.writeEach d start own).filter (· ≠ "")) ++
          Piece.write d (start + (Piece.boundValues own.flatten).length) vs ∧
        c.parameters = Piece.boundValues us ++ Piece.boundValues own.flatten ++
          Piece.boundValues vs

theorem Node.isStatement_of_statement? {n : Node} {k : StatementKind}
    (h : n.statement? = some k) : n.kind.isStatement = true := by
  cases n <;> first | rfl | cases h

/-- Every statement in a compiled tree stands somewhere in its text. The order of the dialect has
each clause that it carries once, and where it stands there are its clauses in that order. -/
theorem Node.hasClauses_compile {d : Dialect} (hd : d.Provided) {n : Node} {c : Compiled}
    (h : n.compile d = .ok c) {m : Node} {k : StatementKind} (hm : m ∈ n.walk d)
    (hk : m.statement? = some k) :
    (∃ o us vs, n.Stands d o us m vs) ∧ (∀ x ∈ m.carried, (d.clauseOrder k).count x = 1) ∧
      c.HasClauses d n m k := by
  obtain ⟨ps, hps, rfl⟩ := compile_eq_ok.mp h
  obtain ⟨_, hown, rfl⟩ := exists_renderOwn hps
  obtain ⟨o, us, vs, hs⟩ := exists_stands hps hm fun _ =>
    all_isEmpty_renderOwn (isStatement_of_statement? hk)
  obtain ⟨qs, hqs, -⟩ := hs.renderOwn hown
  obtain ⟨clauses, hclauses, hnil, rfl⟩ := exists_renderClause hk hqs
  refine ⟨⟨o, us, vs, hs⟩, fun x hx => ?_, clauses, hclauses, hnil, fun o us vs hs => ?_⟩
  · exact List.count_eq_one_of_mem (hd.nodup_clauseOrder k) ((layout_eq_clauses hk hqs).1 hx)
  · obtain ⟨qs, hqs', hsplit⟩ := hs.renderOwn hown
    cases hqs.symm.trans hqs'
    subst hsplit
    constructor
    · rw [Compiled.ofPieces, Piece.write_append, Piece.write_append, Piece.boundValues_spaced,
        Piece.write_spaced hd.boolLiteral_ne_empty, String.append_assoc]
    · show Piece.boundValues _ = _
      rw [Piece.boundValues_append, Piece.boundValues_append, Piece.boundValues_spaced,
        List.append_assoc]

/-- A query with a limit and a condition. -/
def Node.topSample : Node :=
  .select
    { top := some ⟨3, none⟩
      whereClause := some (.binary (.column ⟨⟨"a"⟩⟩) .eq (.value (.int 7) false)) }

/-- A query over another one, with a raw text that is empty behind it. -/
def Node.clausesSample : Node :=
  .select
    { fromItems := some [.alias topSample ⟨"s"⟩]
      having := some (.value (.bool true) false)
      endModifiers := some [.raw [""] []] }

theorem Node.hasClauses_compile_clausesSample :
    clausesSample.compile Engine.sqlserver.dialect = .ok
      ⟨"SELECT * FROM (SELECT TOP(3) * WHERE [a] = @p1) AS [s] HAVING @p2",
        [.int 7, .bool true]⟩ ∧
    topSample ∈ clausesSample.walk Engine.sqlserver.dialect ∧
    topSample.statement? = some .select ∧
    (∃ o us vs, clausesSample.Stands Engine.sqlserver.dialect o us topSample vs) ∧
    (∀ x ∈ topSample.carried, (Engine.sqlserver.dialect.clauseOrder .select).count x = 1) ∧
    Compiled.HasClauses
      ⟨"SELECT * FROM (SELECT TOP(3) * WHERE [a] = @p1) AS [s] HAVING @p2", [.int 7, .bool true]⟩
      Engine.sqlserver.dialect clausesSample topSample .select := by
  have hc : clausesSample.compile Engine.sqlserver.dialect = .ok
      ⟨"SELECT * FROM (SELECT TOP(3) * WHERE [a] = @p1) AS [s] HAVING @p2",
        [.int 7, .bool true]⟩ := by
    cbv
  have hm : topSample ∈ clausesSample.walk Engine.sqlserver.dialect := by
    have hfrom : Node.from [.alias topSample ⟨"s"⟩] ∈
        clausesSample.parts Engine.sqlserver.dialect :=
      List.mem_flatMap.mpr ⟨.from, by decide, List.mem_singleton_self _⟩
    exact walk_subset_of_mem_parts hfrom (walk_subset_of_mem_parts (List.mem_singleton_self _)
      (walk_subset_of_mem_parts List.mem_cons_self (mem_walk_self _ _)))
  exact ⟨hc, hm, rfl, hasClauses_compile (.engine .sqlserver) hc hm rfl⟩

end SqlTree
