import SqlTree.Proofs.Building.Completeness
import SqlTree.Proofs.Nesting.Places

/-! # Nested statements are delimited

A statement below the root stands in parentheses, wherever it is. An INSERT leaves them out for all
that stands directly in it: for the query that gives its rows, and for what is written behind it. -/

namespace SqlTree

/-- In the compiled text of `n`, every statement below the root stands between an opening and a
closing parenthesis, unless it is exempt directly below an INSERT. -/
def Compiled.Delimits (d : Dialect) (n : Node) (exempt : Insert Node → Node → Prop)
    (c : Compiled) : Prop :=
  ∀ p us m vs, n.Stands d (some p) us m vs → m.kind.isStatement = true →
    (∃ q, p = .insert q ∧ exempt q m) ∨
    ∃ before own behind, m.renderOwn d = .ok own ∧ us = before ++ [.text "("] ∧
      vs = .text ")" :: behind ∧
      c.sql = Piece.write d 1 before ++ "(" ++
        Piece.write d (1 + (Piece.boundValues before).length) own ++ ")" ++
        Piece.write d (1 + (Piece.boundValues before).length + (Piece.boundValues own).length)
          behind

/-- Of the parts of an INSERT, only the source of its rows and what is written behind it can be
statements. -/
theorem Insert.statement_part {q : Insert Node} {d : Dialect} {m : Node}
    (h : m ∈ (Node.insert q).parts d) (hs : m.kind.isStatement = true) :
    q.source = some m ∨ m ∈ q.endModifiers.getD [] := by
  obtain ⟨c, -, hm⟩ := List.mem_flatMap.mp h
  cases c
  case values => exact .inl (Option.mem_toList.mp hm)
  case endModifiers => exact .inr hm
  case into =>
    cases List.mem_singleton.mp hm
    cases hs
  case explain | «with» | top | columns | onConflict | returning | output =>
    obtain ⟨a, -, rfl⟩ := List.mem_map.mp hm
    cases hs
  all_goals cases hm

theorem Layout.Around.mem_parts {d : Dialect} {b : Bool} {l : Layout} {us vs : List Piece}
    {m : Node} (h : l.Around d b us m vs) : m ∈ Item.parts l.all := by
  cases h with
  | items => simp [all]
  | clauses => simp [all]

/-- What stands in parentheses has them around it. -/
theorem Layout.Around.parens {d : Dialect} {b : Bool} {n m : Node} {us vs : List Piece}
    (h : (Layout.items (Item.grouped true n)).Around d b us m vs) :
    us = [.text "("] ∧ vs = [.text ")"] := by
  generalize hl : Layout.items (Item.grouped true n) = l at h
  cases h with
  | clauses => cases hl
  | @items is js us vs m hus hvs =>
      have his : [Item.text "(", .part n, .text ")"] = is ++ .part m :: js := Layout.items.inj hl
      rcases is with _ | ⟨i, _ | ⟨i', _ | ⟨i'', is⟩⟩⟩
      · cases his
      · cases his
        cases hus
        cases hvs
        exact ⟨rfl, rfl⟩
      · cases his
      · cases is <;> cases his

/-- A statement below the root has a parenthesis before it and one behind, unless it stands
directly in an INSERT. -/
theorem Node.Stands.delimited {d : Dialect} {n p m : Node} {us vs : List Piece}
    (h : n.Stands d (some p) us m vs)
    (hs : m.kind.isStatement = true) :
    (∃ q, p = .insert q ∧ (q.source = some m ∨ m ∈ q.endModifiers.getD [])) ∨
      ∃ before behind, us = before ++ [.text "("] ∧ vs = .text ")" :: behind := by
  cases h with
  | @part o _ _ us vs before behind above around =>
      cases hp : p.kind.delimits with
      | true =>
          have he : p.isEnclosed m = true := by rw [isEnclosed, hp, hs]; rfl
          rw [he]
          exact .inr ⟨_, _, rfl, rfl⟩
      | false =>
          have he : p.isEnclosed m = false := by rw [isEnclosed, hp, Bool.false_and]
          rw [he]
          cases p
          case parens x =>
            obtain ⟨rfl, rfl⟩ := around.parens
            exact .inr ⟨us, vs, by simp [Piece.opening], rfl⟩
          case insert q =>
            have hm := mem_parts_of_layout around.mem_parts
            exact .inl ⟨q, rfl, Insert.statement_part hm hs⟩
          all_goals cases hp

theorem Piece.write_enclosed (d : Dialect) (k : Nat) (before own behind : List Piece) :
    write d k (before ++ [.text "("] ++ (own ++ .text ")" :: behind)) =
      write d k before ++ "(" ++ write d (k + (boundValues before).length) own ++ ")" ++
        write d (k + (boundValues before).length + (boundValues own).length) behind := by
  have hopen : (boundValues (before ++ [.text "("])).length = (boundValues before).length := by
    rw [boundValues_append, List.length_append]
    rfl
  rw [write_append, write_append, write_append, hopen]
  simp only [write, String.append_assoc, String.append_empty]

/-! ## The root -/

/-- A text that begins with a capital letter. -/
def Text.opensWithCapital (s : String) : Bool := (s.toList.head?.map Char.isUpper).getD false

/-- Pieces of which the first is a fixed text that begins with a capital letter. -/
def Piece.Opens (ps : List Piece) : Prop :=
  ∃ s qs, ps = .text s :: qs ∧ Text.opensWithCapital s = true

theorem Piece.Opens.head?_write {ps : List Piece} (h : Opens ps) (d : Dialect) (k : Nat) :
    (Piece.write d k ps).toList.head? ≠ some '(' := by
  obtain ⟨s, qs, rfl, hs⟩ := h
  rw [Piece.write, String.toList_append]
  rw [Text.opensWithCapital] at hs
  cases hl : s.toList with
  | nil =>
      rw [hl] at hs
      cases hs
  | cons c cs =>
      rw [hl] at hs
      rintro ⟨⟩
      cases hs

theorem Piece.Opens.opens_spaced {ps : List Piece} (h : Opens ps) (pss : List (List Piece)) :
    Opens (Dialect.spaced (ps :: pss)) := by
  obtain ⟨s, qs, rfl, hs⟩ := h
  have hne : (Piece.text s :: qs).all isEmpty = false := by
    have he : (Piece.text s).isEmpty = false := by
      refine Bool.eq_false_iff.mpr fun he => ?_
      rw [String.isEmpty_iff.mp he] at hs
      cases hs
    rw [List.all_cons, he, Bool.false_and]
  rw [← List.nil_append (_ :: pss), spaced_append_cons [] pss hne]
  exact ⟨s, qs ++ trailing pss, rfl, hs⟩

theorem Item.opens {d : Dialect} {b : Bool} {s : String} {is : List Item} {ps : List Piece}
    (hs : Text.opensWithCapital s = true) (h : renderAll d b (.text s :: is) = .ok ps) :
    Piece.Opens ps := by
  obtain ⟨_, qs, ⟨⟩, -, rfl⟩ := renderAll_cons_eq_ok.mp h
  exact ⟨s, qs, rfl, hs⟩

theorem Explain.opens {e : Explain Node} {d : Dialect} {b : Bool} {ps : List Piece}
    (h : (Node.explain e).render d b = .ok ps) : Piece.Opens ps := by
  have hown := Node.renderOwn_eq_ok rfl h
  rw [Node.renderOwn, Node.layout, Layout.render, layout] at hown
  split at hown
  · exact Item.opens rfl hown
  · split at hown
    · cases hown
    · refine Item.opens ?_ hown
      rw [Text.opensWithCapital, String.toList_append]
      rfl

theorem With.opens {w : With Node} {d : Dialect} {b : Bool} {ps : List Piece}
    (h : (Node.with w).render d b = .ok ps) : Piece.Opens ps := by
  refine Item.opens ?_ (Node.renderOwn_eq_ok rfl h)
  cases w.isRecursive <;> rfl

/-- A clause of a single part is left out, or opens as the part does. -/
theorem Item.opens_single {α : Type} {make : α → Node} {d : Dialect} {b : Bool}
    (hopens : ∀ a ps, (make a).render d b = .ok ps → Piece.Opens ps) {o : Option α}
    {ps : List Piece}
    (h : renderAll d b (((o.map make).map fun n => [.part n]).getD []) = .ok ps) :
    ps = [] ∨ Piece.Opens ps := by
  cases o with
  | none =>
      cases h
      exact .inl rfl
  | some a =>
      obtain ⟨qs, _, hqs, ⟨⟩, rfl⟩ := renderAll_cons_eq_ok.mp h
      rw [List.append_nil]
      exact .inr (hopens a qs hqs)

theorem Piece.spaced_nil_cons (pss : List (List Piece)) :
    Dialect.spaced ([] :: pss) = Dialect.spaced pss := rfl

/-- The clauses that a statement may begin with: EXPLAIN, WITH and its keyword. -/
structure Layout.BeginsWith (cs : List (Clause × List Item)) (e : Option (Explain Node))
    (w : Option (With Node)) (keyword : String) : Prop where
  explain : cs.lookup .explain = (e.map .explain).map fun n => [.part n]
  ctes : cs.lookup .with = (w.map .with).map fun n => [.part n]
  keyword : cs.lookup .keyword = some [.text keyword]

open Layout in
theorem Select.beginsWith_layout (q : Select Node) : BeginsWith q.layout q.explain q.withClause
    (if q.distinct then "SELECT DISTINCT" else "SELECT") := by
  constructor <;> simp [layout, List.lookup_append, lookup_clause, lookup_single, lookup_cons,
    -Option.map_map]

open Layout in
theorem Insert.beginsWith_layout (q : Insert Node) (keyword : String) :
    BeginsWith (q.layout keyword) q.explain q.withClause keyword := by
  constructor <;> simp [layout, List.lookup_append, lookup_clause, lookup_single, lookup_cons,
    -Option.map_map]

open Layout in
theorem Update.beginsWith_layout (q : Update Node) (as : List (Assignment Node)) :
    BeginsWith (q.layout as) q.explain q.withClause "UPDATE" := by
  constructor <;> simp [layout, List.lookup_append, lookup_clause, lookup_single, lookup_cons,
    -Option.map_map]

open Layout in
theorem Delete.beginsWith_layout (q : Delete Node) :
    BeginsWith q.layout q.explain q.withClause "DELETE" := by
  constructor <;> simp [layout, List.lookup_append, lookup_clause, lookup_single, lookup_cons,
    -Option.map_map]

/-- A statement begins with the first of these clauses that it has. -/
theorem Layout.BeginsWith.opens {d : Dialect} {b : Bool} {k : StatementKind} {rest : List Clause}
    (horder : d.clauseOrder k = .explain :: .with :: .keyword :: rest)
    {cs : List (Clause × List Item)} {e : Option (Explain Node)} {w : Option (With Node)}
    {s : String} (hcs : BeginsWith cs e w s) (hs : Text.opensWithCapital s = true)
    {ps : List Piece} (h : (statement d k cs).render d b = .ok ps) : Piece.Opens ps := by
  rw [statement] at h
  split at h
  · cases h
  · obtain ⟨_, hpss, rfl⟩ := render_clauses_eq_ok.mp h
    rw [horder, List.map_cons, List.map_cons, List.map_cons, hcs.explain, hcs.ctes,
      hcs.keyword] at hpss
    obtain ⟨es, _, hes, hlater, rfl⟩ := List.forall₂_cons_left_iff.mp hpss
    obtain ⟨ws, _, hws, hlast, rfl⟩ := List.forall₂_cons_left_iff.mp hlater
    obtain ⟨ks, pss, hks, -, rfl⟩ := List.forall₂_cons_left_iff.mp hlast
    rcases Item.opens_single (fun _ _ => Explain.opens) hes with rfl | hes
    · rw [Piece.spaced_nil_cons]
      rcases Item.opens_single (fun _ _ => With.opens) hws with rfl | hws
      · rw [Piece.spaced_nil_cons]
        exact (Item.opens hs hks).opens_spaced pss
      · exact hws.opens_spaced _
    · exact hes.opens_spaced _

theorem Dialect.Provided.exists_clauseOrder {d : Dialect} (h : d.Provided) (k : StatementKind) :
    ∃ rest, d.clauseOrder k = .explain :: .with :: .keyword :: rest := by
  cases h with
  | engine e => cases e <;> cases k <;> exact ⟨_, rfl⟩
  | profile p =>
      obtain ⟨name, base, quote, placeholder, unsupported, supported⟩ := p
      cases base <;> cases k <;> exact ⟨_, rfl⟩

theorem Dialect.Provided.insertIgnore {d : Dialect} (h : d.Provided) {s : String}
    (hs : d.insertIgnore = some s) : Text.opensWithCapital s = true := by
  have hengine (e : Engine) (hs : e.dialect.insertIgnore = some s) :
      Text.opensWithCapital s = true := by
    cases e
    case mysql | sqlite =>
      cases hs
      rfl
    all_goals cases hs
  cases h with
  | engine e => exact hengine e hs
  | profile p => exact hengine p.base hs

/-- The text of a statement begins with a keyword. -/
theorem Node.opens_renderOwn {d : Dialect} (hd : d.Provided) {n : Node}
    (hn : n.kind.isStatement = true) {ps : List Piece} (h : n.renderOwn d = .ok ps) :
    Piece.Opens ps := by
  rw [renderOwn] at h
  cases n
  case select q =>
    obtain ⟨rest, horder⟩ := hd.exists_clauseOrder .select
    refine q.beginsWith_layout.opens horder ?_ h
    cases q.distinct <;> rfl
  case delete q =>
    obtain ⟨rest, horder⟩ := hd.exists_clauseOrder .delete
    exact q.beginsWith_layout.opens horder rfl h
  case update q =>
    obtain ⟨rest, horder⟩ := hd.exists_clauseOrder .update
    rw [layout] at h
    split at h
    · cases h
    · cases h
    · exact (q.beginsWith_layout _).opens horder rfl h
  case insert q =>
    obtain ⟨rest, horder⟩ := hd.exists_clauseOrder .insert
    rw [layout] at h
    split at h
    · cases h
    · split at h
      · cases h
      · rename_i keyword hkeyword
        refine (q.beginsWith_layout keyword).opens horder ?_ h
        split at hkeyword
        · exact hd.insertIgnore hkeyword
        · cases hkeyword
          rfl
  all_goals cases hn

/-! ## Compiled trees -/

/-- The text of the root is that of its own pieces, and does not begin with a parenthesis if the
root is a statement. Every statement below it has a place in that text, and stands in parentheses
there unless it stands directly in an INSERT, for its rows or behind it. -/
theorem Node.delimits_compile {d : Dialect} {n : Node} {c : Compiled} (h : n.compile d = .ok c) :
    (∃ ps, n.renderOwn d = .ok ps ∧ c.sql = Piece.write d 1 ps) ∧
      (d.Provided → n.kind.isStatement = true → c.sql.toList.head? ≠ some '(') ∧
      (∀ m ∈ (n.parts d).flatMap (Node.walk d), m.kind.isStatement = true →
        ∃ p us vs, n.Stands d (some p) us m vs) ∧
      c.Delimits d n fun q m => q.source = some m ∨ m ∈ q.endModifiers.getD [] := by
  obtain ⟨ps, hps, rfl⟩ := compile_eq_ok.mp h
  obtain ⟨_, hown, rfl⟩ := exists_renderOwn hps
  refine ⟨⟨_, hown, rfl⟩, fun hd hn => ?_, fun m hm hs => ?_, fun p us m vs hm hs => ?_⟩
  · exact (opens_renderOwn hd hn hown).head?_write d 1
  · obtain ⟨k, hk, hm⟩ := List.mem_flatMap.mp hm
    exact Stands.root.exists_part hps hk hm hs
  · refine (hm.delimited hs).imp_right fun ⟨before, behind, hus, hvs⟩ => ?_
    obtain ⟨qs, hqs, rfl⟩ := hm.renderOwn hown
    subst hus
    subst hvs
    exact ⟨before, qs, behind, hqs, rfl, rfl, Piece.write_enclosed d 1 before qs behind⟩

/-- An INSERT of the rows of a query, with a query in its FROM clause and one in parentheses. -/
def Node.queriesSample : Node :=
  .insert
    { into := ⟨none, ⟨"t"⟩⟩
      source := some (.select
        { fromItems := some [.alias (.select {}) ⟨"s"⟩]
          whereClause := some (.unary .exists (.parens (.select {}))) }) }

theorem Node.delimits_compile_queriesSample :
    queriesSample.compile Engine.postgres.dialect = .ok
      ⟨"INSERT INTO \"t\" SELECT * FROM (SELECT *) AS \"s\" WHERE EXISTS (SELECT *)", []⟩ ∧
    Compiled.Delimits Engine.postgres.dialect queriesSample
      (fun q m => q.source = some m ∨ m ∈ q.endModifiers.getD [])
      ⟨"INSERT INTO \"t\" SELECT * FROM (SELECT *) AS \"s\" WHERE EXISTS (SELECT *)", []⟩ := by
  have hc : queriesSample.compile Engine.postgres.dialect = .ok
      ⟨"INSERT INTO \"t\" SELECT * FROM (SELECT *) AS \"s\" WHERE EXISTS (SELECT *)", []⟩ := by
    cbv
  exact ⟨hc, (delimits_compile hc).2.2.2⟩

/-- An INSERT with a query written behind it. -/
def Node.trailingSample : Node :=
  .insert { into := ⟨none, ⟨"t"⟩⟩, defaultValues := true, endModifiers := some [.select {}] }

/-- The query behind an INSERT stands there without parentheses. -/
theorem Node.not_delimits_trailingSample :
    trailingSample.compile Engine.postgres.dialect =
      .ok ⟨"INSERT INTO \"t\" DEFAULT VALUES SELECT *", []⟩ ∧
    ¬ Compiled.Delimits Engine.postgres.dialect trailingSample (fun q m => q.source = some m)
      ⟨"INSERT INTO \"t\" DEFAULT VALUES SELECT *", []⟩ := by
  refine ⟨by cbv, fun h => ?_⟩
  have hown : trailingSample.renderOwn Engine.postgres.dialect = .ok
      [.text "INSERT", .text " ", .text "INTO ", .name "t", .text " ", .text "DEFAULT VALUES",
       .text " ", .text "SELECT", .text " ", .text "*"] := by cbv
  have hpart : Node.select {} ∈ Item.parts (trailingSample.layout Engine.postgres.dialect).all := by
    rw [parts_layout (Layout.not_refuses_of_render hown)]
    simp [trailingSample, parts, Engine.dialect, StatementKind.usualOrder, Insert.clauseParts]
  obtain ⟨us, vs, around⟩ := Layout.exists_around hown hpart
    fun _ => all_isEmpty_render (mem_walk_self _ _) rfl
  have hplace := Stands.root.part around
  rcases h _ _ _ _ hplace rfl with ⟨q, hq, hs⟩ | ⟨before, own, behind, -, hus, -, -⟩
  · cases hq
    cases hs
  · obtain ⟨qs, -, hps⟩ := hplace.renderOwn hown
    have hmem : Piece.text "(" ∈
        [] ++ us ++ Piece.opening (trailingSample.isEnclosed (.select {})) := by
      rw [hus]
      exact List.mem_append_right _ (List.mem_singleton_self _)
    have hall := hps ▸ List.mem_append_left _ hmem
    simp at hall

end SqlTree
