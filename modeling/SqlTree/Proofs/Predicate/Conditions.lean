import SqlTree.Proofs.Emission.Payload
import SqlTree.Proofs.Predicate.Merging
import SqlTree.Proofs.Predicate.Queries

/-! # Conditions with queries

A condition is a predicate in which EXISTS and NOT EXISTS may stand before a SELECT. In PostgreSQL
its text is read as the condition, unless a NOT EXISTS stands directly beside a binary operator:
NOT is put in parentheses there, and NOT EXISTS is not. -/

namespace SqlTree

/-! ## What a condition means -/

/-- The tokens of a text with its parameters in place of their marks. -/
def Compiled.lexemes? (d : Dialect) (c : Compiled) : Option (List Lexeme) := do
  (← d.scan? c.sql).mapM (Lexeme.ofToken? c.parameters)

namespace Node

/-- The tokens of a tree that is compiled on its own. -/
def lexemes? (d : Dialect) (n : Node) : Option (List Lexeme) := do
  (← (n.compile d).toOption).lexemes? d

/-- A condition means an expression with a call of EXISTS for each of some queries, in their order.
NOT EXISTS is the negation of EXISTS, and parentheses mean nothing. -/
inductive Means : Node → Expr → List Node → Prop where
  | column (c : Column) : Means (.column c) (.column [c.column.name]) []
  | reference (t : Option Table) (c : Column) :
      Means (.reference t (.column c)) (.column ((t.map Table.path).getD [] ++ [c.column.name])) []
  | value (v : Value) : Means (.value v false) (.value v) []
  | parens {n e qs} : Means n e qs → Means (.parens n) e qs
  | and {l r e f qs rs} : Means l e qs → Means r f rs →
      Means (.and l r) (.combine .and e f) (qs ++ rs)
  | or {l r e f qs rs} : Means l e qs → Means r f rs →
      Means (.or l r) (.combine .or e f) (qs ++ rs)
  | not {n e qs} : Means n e qs → Means (.unary .not n) (.not e) qs
  | neg {n e qs} : Means n e qs → Means (.unary .neg n) (.neg e) qs
  | exists (q : Select Node) : Means (.unary .exists (.select q)) (.call "EXISTS" []) [.select q]
  | notExists (q : Select Node) :
      Means (.unary .notExists (.select q)) (.not (.call "EXISTS" [])) [.select q]
  | binary {l r e f qs rs} {op : Operator} (hop : op.isUnary = false) : Means l e qs →
      Means r f rs → Means (.binary l op r) (.binary e op f) (qs ++ rs)

def isNotExists : Node → Bool
  | .unary .notExists _ => true
  | _ => false

/-- Whether no NOT EXISTS is itself an operand of a binary operator. -/
def isGrouped : Node → Bool
  | .parens n | .unary _ n => n.isGrouped
  | .and l r | .or l r => l.isGrouped && r.isGrouped
  | .binary l _ r => !l.isNotExists && !r.isNotExists && l.isGrouped && r.isGrouped
  | _ => true

/-- A tree whose text is read to its end wherever it stands, and whose parentheses close. -/
def IsClosed (d : Dialect) (n : Node) : Prop :=
  ∃ ps, n.render d false = .ok ps ∧ Piece.Read d ps ∧ Piece.Balanced d ps

theorem isClosed_of_isLexical {e : Engine} {n : Node} {ps : List Piece}
    (h : n.render e.dialect false = .ok ps) (hn : ∀ m ∈ n.walk e.dialect, m.isLexical = true) :
    n.IsClosed e.dialect :=
  ⟨ps, h, read_render hn h⟩

end Node

/-! ## Queries -/

namespace Lexeme

theorem mapM_ofToken? {vs : List Value} {ts : List Token}
    (h : ts.filterMap Token.placeholder? = []) : ts.mapM (ofToken? vs) = some (ts.map .token) := by
  induction ts with
  | nil => rfl
  | cons t ts ih =>
      rw [List.filterMap_eq_nil_iff, List.forall_mem_cons] at h
      have ht : ofToken? vs t = some (.token t) := by
        cases t with
        | placeholder s => cases h.1
        | _ => rfl
      rw [List.mapM_cons, ht, ih (List.filterMap_eq_nil_iff.mpr h.2)]
      rfl

end Lexeme

namespace Piece

/-- The tokens of a piece, a value in place of its mark. -/
def lexemes (d : Dialect) : Piece → List Lexeme
  | .text s => (Text.tokens s).map .token
  | .name s => [.token (.name s)]
  | .literal v => (d.literalTokens v).map .token
  | .bound v => [.value v]

theorem isQuotedReading_placeholder? : Dialect.IsQuotedReading Token.placeholder? :=
  ⟨fun t ht => (by cases t <;> first | rfl | cases ht), fun _ => rfl⟩

theorem binds_boundValues (ps : List Piece) : Binds (ps.filterMap bound?) 1 ps :=
  ⟨[], [], by rw [List.nil_append, List.append_nil]; rfl, rfl⟩

theorem mapM_tokens_singleton {vs : List Value} {k : Nat} {p : Piece} (hk : Binds vs k [p]) :
    (tokens Engine.postgres.dialect k [p]).mapM (Lexeme.ofToken? vs) =
      some (p.lexemes Engine.postgres.dialect) := by
  cases p with
  | text s =>
      rw [tokens, tokens, List.append_nil]
      exact Lexeme.mapM_ofToken? (Dialect.filterMap_plain isQuotedReading_placeholder? s)
  | name s => rfl
  | literal v =>
      rw [tokens, tokens, List.append_nil]
      refine Lexeme.mapM_ofToken? ?_
      rw [Dialect.filterMap_literalTokens isQuotedReading_placeholder?]
      exact List.filterMap_eq_nil_iff.mpr fun _ _ => rfl
  | bound v =>
      obtain ⟨us, ws, rfl, rfl⟩ := hk
      have hv : Lexeme.ofToken? (us ++ boundValues [.bound v] ++ ws)
          (.placeholder (Engine.postgres.dialect.placeholder.text (us.length + 1))) =
          some (.value v) := by
        rw [Lexeme.ofToken?, Part.parameter?_text]
        simp [boundValues, bound?]
      rw [tokens, tokens, List.mapM_cons, hv]
      rfl

/-- The values behind the placeholders of pieces are those that the pieces bind. -/
theorem mapM_tokens {vs : List Value} {k : Nat} {ps : List Piece} (hk : Binds vs k ps) :
    (tokens Engine.postgres.dialect k ps).mapM (Lexeme.ofToken? vs) =
      some (ps.flatMap (lexemes Engine.postgres.dialect)) := by
  induction ps generalizing k with
  | nil => rfl
  | cons p ps ih =>
      have hk : Binds vs k ([p] ++ ps) := hk
      rw [← List.singleton_append, tokens_append, List.mapM_append,
        mapM_tokens_singleton hk.left, ih hk.right]
      rfl

end Piece

theorem Compiled.lexemes?_ofPieces {ps : List Piece}
    (hr : Piece.Read Engine.postgres.dialect ps) :
    (Compiled.ofPieces Engine.postgres.dialect ps).lexemes? Engine.postgres.dialect =
      some (ps.flatMap (Piece.lexemes Engine.postgres.dialect)) := by
  rw [lexemes?, ofPieces, (hr 1).scan?_eq]
  exact Piece.mapM_tokens (Piece.binds_boundValues ps)

theorem Node.IsClosed.exists_lexemes {n : Node} (h : n.IsClosed Engine.postgres.dialect) :
    ∃ ps, n.render Engine.postgres.dialect false = .ok ps ∧
      Piece.Balanced Engine.postgres.dialect ps ∧
      [n].mapM (lexemes? Engine.postgres.dialect) =
        some [ps.flatMap (Piece.lexemes Engine.postgres.dialect)] := by
  obtain ⟨ps, hr, hread, hb⟩ := h
  have hn : n.lexemes? Engine.postgres.dialect =
      some (ps.flatMap (Piece.lexemes Engine.postgres.dialect)) := by
    rw [lexemes?, compile, hr]
    exact Compiled.lexemes?_ofPieces hread
  refine ⟨ps, hr, hb, ?_⟩
  rw [List.mapM_cons, hn]
  rfl

/-! ## Pieces -/

namespace Piece

variable {vs : List Value} {l m : Level} {ps qs : List Piece} {e f : Expr}
  {xs ys : List (List Lexeme)}

/-- Pieces that spell an expression at a level, with a call of EXISTS for each of some queries. -/
def Poses (vs : List Value) (l : Level) (ps : List Piece) (e : Expr) (xs : List (List Lexeme)) :
    Prop :=
  ∀ k, Binds vs k ps → ∃ is,
    Part.Poses Engine.postgres.dialect vs (tokens Engine.postgres.dialect k ps) is xs ∧
      Part.Spells Engine.postgres.dialect vs l is e

theorem Poses.mono (hl : l.rank ≤ m.rank) (h : Poses vs m ps e xs) : Poses vs l ps e xs :=
  fun k hk => by
    obtain ⟨is, hi, hs⟩ := h k hk
    exact ⟨is, hi, hs.mono hl⟩

/-- Pieces without EXISTS among their words spell an expression without queries. -/
theorem Spells.poses (h : Spells Engine.postgres.dialect vs l ps e)
    (ht : ∀ k, ∀ t ∈ tokens Engine.postgres.dialect k ps, t.isKeyword "EXISTS" = false) :
    Poses vs l ps e [] := fun k hk => by
  obtain ⟨is, hi, hs⟩ := h k hk
  exact ⟨is, hi.poses (ht k), hs⟩

/-- Texts of an operator. -/
def texts (ss : List String) : List Piece := ss.map .text

theorem tokens_texts (d : Dialect) (k : Nat) (ss : List String) (ps : List Piece) :
    tokens d k (texts ss ++ ps) = ss.flatMap Text.tokens ++ tokens d k ps := by
  induction ss with
  | nil => rfl
  | cons s ss ih =>
      rw [texts, List.map_cons, List.cons_append, tokens, List.flatMap_cons, List.append_assoc]
      exact congrArg _ ih

theorem Binds.behind {k : Nat} {ss : List String} (h : Binds vs k (texts ss ++ ps)) :
    Binds vs k ps := by
  induction ss with
  | nil => exact h
  | cons s ss ih => exact ih h

theorem isKeyword_path (s : String) (ss : List String) (k : Nat) :
    ∀ t ∈ tokens Engine.postgres.dialect k (path s ss), t.isKeyword "EXISTS" = false := by
  rw [path, tokens, List.forall_mem_cons]
  refine ⟨rfl, ?_⟩
  induction ss with
  | nil => exact List.forall_mem_nil _
  | cons s ss ih => exact List.forall_mem_cons.mpr ⟨rfl, List.forall_mem_cons.mpr ⟨rfl, ih⟩⟩

/-- An operator before an operand. -/
theorem Poses.behind {ss : List String} (hss : ∀ t ∈ ss.flatMap Text.tokens, t.passes = true)
    (hf : ∀ is, Part.Spells Engine.postgres.dialect vs l is e →
      Part.Spells Engine.postgres.dialect vs m ((ss.flatMap Text.tokens).map .token ++ is) f)
    (h : Poses vs l ps e xs) : Poses vs m (texts ss ++ ps) f xs := fun k hk => by
  obtain ⟨is, hi, hs⟩ := h k hk.behind
  refine ⟨_, ?_, hf is hs⟩
  rw [tokens_texts]
  exact (Part.poses_tokens hss).append hi

/-- An operator between two operands. -/
theorem Poses.between {ss : List String} {g : Expr}
    (hss : ∀ t ∈ ss.flatMap Text.tokens, t.passes = true)
    (hg : ∀ is js, Part.Spells Engine.postgres.dialect vs l is e →
      Part.Spells Engine.postgres.dialect vs l js f →
      Part.Spells Engine.postgres.dialect vs m
        (is ++ ((ss.flatMap Text.tokens).map .token ++ js)) g)
    (h : Poses vs l ps e xs) (h' : Poses vs l qs f ys) :
    Poses vs m (ps ++ (texts ss ++ qs)) g (xs ++ ys) := fun k hk => by
  obtain ⟨is, hi, hs⟩ := h k hk.left
  obtain ⟨js, hj, ht⟩ := h' _ hk.right.behind
  refine ⟨_, ?_, hg is js hs ht⟩
  rw [tokens_append, tokens_texts]
  exact hi.append ((Part.poses_tokens hss).append hj)

theorem Poses.wrapped (h : Poses vs .or ps e xs) :
    Poses vs .operand (wrapped true ps) e xs := fun k hk => by
  obtain ⟨is, hi, hs⟩ := h k (show Binds vs k (ps ++ [.text ")"]) from hk).left
  refine ⟨_, ?_, Part.spells_group e⟩
  have hw := hi.enclosed hs.readAll
  rw [Piece.wrapped, if_pos rfl, List.cons_append, tokens, tokens_append]
  exact hw

/-- A query in parentheses behind EXISTS. -/
theorem poses_query (hb : Balanced Engine.postgres.dialect ps) :
    Poses vs .operand (.text "EXISTS" :: .text " " :: wrapped true ps) (.call "EXISTS" [])
      [ps.flatMap (lexemes Engine.postgres.dialect)] := fun k hk => by
  have hps : Binds vs k ps := (show Binds vs k (ps ++ [.text ")"]) from hk).left
  have hs : Part.Spells Engine.postgres.dialect vs .operand
      [.token (.word "EXISTS"), .group []] (.call "EXISTS" []) :=
    Part.spells_call (s := "EXISTS") (by decide) []
  refine ⟨_, ?_, hs⟩
  have hw := Part.poses_query (d := Engine.postgres.dialect) (hb k) (mapM_tokens hps)
  rw [Piece.wrapped, if_pos rfl, List.cons_append, tokens, tokens, tokens, tokens_append]
  exact hw

end Piece

/-! ## Nodes -/

/-- The level of the outermost operator of a condition. -/
def Node.conditionLevel : Node → Level
  | .unary .notExists _ => .not
  | n => n.level

/-- An operand without parentheses is bound as tightly as its position asks for, unless it is a
NOT EXISTS beside a binary operator. -/
theorem OperandPosition.rank_conditionLevel_le {p : OperandPosition} {n : Node} {e : Expr}
    {qs : List Node} (hn : n.Means e qs) (h : p.parenthesizes n = false)
    (hp : p ≠ .binary ∨ n.isNotExists = false) : p.level.rank ≤ n.conditionLevel.rank := by
  cases hn
  case notExists q =>
    cases p with
    | binary =>
        rcases hp with hp | hp
        · exact absurd rfl hp
        · cases hp
    | negated => cases h
    | conjunction | prefixed => exact Nat.le_of_ble_eq_true rfl
  all_goals cases p <;> first | exact Nat.le_of_ble_eq_true rfl | cases h

theorem OperandPosition.render_ok (p : OperandPosition) (n : Node) (ps : List Piece) :
    p.render n (.ok ps) = .ok (Piece.wrapped (p.parenthesizes n) ps) :=
  Rendering.parenthesized_ok _ ps

theorem Piece.Poses.operand {vs : List Value} {p : OperandPosition} {n : Node} {ps : List Piece}
    {e : Expr} {qs : List Node} {xs : List (List Lexeme)} (hn : n.Means e qs)
    (hp : p ≠ .binary ∨ n.isNotExists = false) (h : Poses vs n.conditionLevel ps e xs) :
    Poses vs p.level (Piece.wrapped (p.parenthesizes n) ps) e xs := by
  cases hw : p.parenthesizes n with
  | false => exact h.mono (OperandPosition.rank_conditionLevel_le hn hw hp)
  | true =>
      have hgroup : Poses vs .operand (Piece.wrapped true ps) e xs :=
        (h.mono (Nat.zero_le _)).wrapped
      exact hgroup.mono (by cases p <;> decide)

namespace Node

open Rendering

theorem Means.not_isStatement {n : Node} {e : Expr} {qs : List Node} (h : n.Means e qs) :
    n.kind.isStatement = false := by
  cases h <;> rfl

/-- A query behind an operator stands in parentheses. -/
theorem render_unary_select {op : Operator} (hop : op ≠ .neg) {q : Select Node} {ps : List Piece}
    (h : (Node.select q).render Engine.postgres.dialect false = .ok ps) :
    (Node.unary op (.select q)).render Engine.postgres.dialect true =
      .ok (.text (Engine.postgres.dialect.operator op) :: .text " " :: Piece.wrapped true ps) := by
  have hq : q.render Engine.postgres.dialect = .ok ps := h
  have hn : (Node.select q).render Engine.postgres.dialect true =
      .ok (Piece.wrapped true ps) := by
    rw [render, hq, parenthesized_ok]
    rfl
  have hp : OperandPosition.prefixed.render (.select q) (.ok (Piece.wrapped true ps)) =
      .ok (Piece.wrapped true ps) := rfl
  rw [render, if_neg hop, hn, hp]
  show Except.ok _ = _
  simp

/-- A node that renders to pieces which pose an expression, with what some queries compile to. -/
def Posed (n : Node) (e : Expr) (qs : List Node) : Prop :=
  ∃ ps xs, n.render Engine.postgres.dialect true = .ok ps ∧
    qs.mapM (lexemes? Engine.postgres.dialect) = some xs ∧
    ∀ vs, Piece.Poses vs n.conditionLevel ps e xs

section Posed

variable {n l r : Node} {e f : Expr} {qs rs : List Node}

theorem posed_column (c : Column) : (Node.column c).Posed (.column [c.column.name]) [] :=
  ⟨_, [], rfl, rfl, fun _ =>
    (Piece.spells_path c.column.name []).poses (Piece.isKeyword_path _ _)⟩

theorem posed_reference (t : Option Table) (c : Column) :
    (Node.reference t (.column c)).Posed
      (.column ((t.map Table.path).getD [] ++ [c.column.name])) [] := by
  rcases t with _ | ⟨_ | schema, table⟩
  · exact posed_column c
  · exact ⟨_, [], rfl, rfl, fun vs =>
      (Piece.spells_path table.name [c.column.name]).poses (Piece.isKeyword_path _ _)⟩
  · exact ⟨_, [], rfl, rfl, fun vs =>
      (Piece.spells_path schema.name [table.name, c.column.name]).poses
        (Piece.isKeyword_path _ _)⟩

theorem posed_value (v : Value) : (Node.value v false).Posed (.value v) [] := by
  refine ⟨_, [], rfl, rfl, fun vs => (Piece.spells_bound v).poses fun k t ht => ?_⟩
  rw [List.mem_singleton.mp ht]
  rfl

theorem Posed.parens (hn : n.kind.isStatement = false) (h : n.Posed e qs) :
    (Node.parens n).Posed e qs := by
  obtain ⟨ps, xs, hr, hx, hs⟩ := h
  refine ⟨Piece.wrapped true ps, xs, ?_, hx, fun vs => ((hs vs).mono (Nat.zero_le _)).wrapped⟩
  rw [render, render_nested hn, hr, parenthesized_ok]
  rfl

theorem Posed.not (hn : n.Means e qs) (h : n.Posed e qs) :
    (Node.unary .not n).Posed (.not e) qs := by
  obtain ⟨ps, xs, hr, hx, hs⟩ := h
  refine ⟨Piece.texts ["NOT", " "] ++
    Piece.wrapped (OperandPosition.prefixed.parenthesizes n) ps, xs, ?_, hx, fun vs =>
    ((hs vs).operand (p := .prefixed) hn (.inl (by decide))).behind (by decide)
      fun is h => h.not⟩
  rw [render, if_neg (by decide), hr, OperandPosition.render_ok]
  show Except.ok _ = _
  simp [Piece.texts]
  rfl

theorem Posed.neg (hn : n.Means e qs) (h : n.Posed e qs) :
    (Node.unary .neg n).Posed (.neg e) qs := by
  obtain ⟨ps, xs, hr, hx, hs⟩ := h
  refine ⟨Piece.texts ["-"] ++
    Piece.wrapped (OperandPosition.negated.parenthesizes n) ps, xs, ?_, hx, fun vs =>
    ((hs vs).operand (p := .negated) hn (.inl (by decide))).behind (by decide)
      fun is h => h.neg⟩
  rw [render, if_pos rfl, hr, OperandPosition.render_ok]
  show Except.ok _ = _
  simp [Piece.texts]
  rfl

theorem Posed.mapM_append {xs ys : List (List Lexeme)}
    (hx : qs.mapM (lexemes? Engine.postgres.dialect) = some xs)
    (hy : rs.mapM (lexemes? Engine.postgres.dialect) = some ys) :
    (qs ++ rs).mapM (lexemes? Engine.postgres.dialect) = some (xs ++ ys) := by
  rw [List.mapM_append, hx, hy]
  rfl

theorem Posed.and (hl : l.Means e qs) (hr : r.Means f rs) (h : l.Posed e qs) (h' : r.Posed f rs) :
    (Node.and l r).Posed (.combine .and e f) (qs ++ rs) := by
  obtain ⟨ps, xs, hps, hx, hs⟩ := h
  obtain ⟨ps', ys, hps', hy, ht⟩ := h'
  refine ⟨Piece.wrapped (OperandPosition.conjunction.parenthesizes l) ps ++
    (Piece.texts [" AND "] ++ Piece.wrapped (OperandPosition.conjunction.parenthesizes r) ps'),
    xs ++ ys, ?_, mapM_append hx hy, fun vs => ?_⟩
  · rw [render, hps, hps', OperandPosition.render_ok, OperandPosition.render_ok]
    show Except.ok _ = _
    simp [Piece.texts]
  · exact ((hs vs).operand (p := .conjunction) hl (.inl (by decide))).between
      (by decide) (fun is js h h' => h.and h')
      ((ht vs).operand (p := .conjunction) hr (.inl (by decide)))

/-- OR is bound most loosely, so its operands stand without parentheses. -/
theorem Posed.or (h : l.Posed e qs) (h' : r.Posed f rs) :
    (Node.or l r).Posed (.combine .or e f) (qs ++ rs) := by
  obtain ⟨ps, xs, hps, hx, hs⟩ := h
  obtain ⟨ps', ys, hps', hy, ht⟩ := h'
  refine ⟨ps ++ (Piece.texts [" OR "] ++ ps'), xs ++ ys, ?_, mapM_append hx hy, fun vs => ?_⟩
  · rw [render, hps, hps']
    show Except.ok _ = _
    simp [Piece.texts]
  · exact ((hs vs).mono (Nat.zero_le _)).between (by decide) (fun is js h h' => h.or h')
      ((ht vs).mono (Nat.zero_le _))

theorem Posed.binary {op : Operator} (hop : op.isUnary = false) (hl : l.Means e qs)
    (hr : r.Means f rs) (hnl : l.isNotExists = false) (hnr : r.isNotExists = false)
    (h : l.Posed e qs) (h' : r.Posed f rs) :
    (Node.binary l op r).Posed (.binary e op f) (qs ++ rs) := by
  obtain ⟨ps, xs, hps, hx, hs⟩ := h
  obtain ⟨ps', ys, hps', hy, ht⟩ := h'
  refine ⟨Piece.wrapped (OperandPosition.binary.parenthesizes l) ps ++
    (Piece.texts [" ", Engine.postgres.dialect.operator op, " "] ++
      Piece.wrapped (OperandPosition.binary.parenthesizes r) ps'),
    xs ++ ys, ?_, mapM_append hx hy, fun vs => ?_⟩
  · rw [render, hps, hps', OperandPosition.render_ok, OperandPosition.render_ok]
    show Except.ok _ = _
    simp [Piece.texts]
  · refine ((hs vs).operand (p := .binary) hl (.inr hnl)).between ?_ (fun is js h h' => ?_)
      ((ht vs).operand (p := .binary) hr (.inr hnr))
    · cases op <;> first | decide | cases hop
    · have hspelled : (([" ", Engine.postgres.dialect.operator op, " "].flatMap
          Text.tokens).map Part.token) = Part.spelled op := by
        simp [Part.spelled, show Text.tokens " " = [] from rfl]
      rw [hspelled]
      exact h.binary hop h'

theorem IsClosed.posed_exists {q : Select Node}
    (hq : (Node.select q).IsClosed Engine.postgres.dialect) :
    (Node.unary .exists (.select q)).Posed (.call "EXISTS" []) [.select q] := by
  obtain ⟨ps, hr, hb, hx⟩ := hq.exists_lexemes
  exact ⟨_, _, render_unary_select (by decide) hr, hx, fun vs => Piece.poses_query hb⟩

theorem IsClosed.posed_notExists {q : Select Node}
    (hq : (Node.select q).IsClosed Engine.postgres.dialect) :
    (Node.unary .notExists (.select q)).Posed (.not (.call "EXISTS" [])) [.select q] := by
  obtain ⟨ps, hr, hb, hx⟩ := hq.exists_lexemes
  refine ⟨_, _, render_unary_select (by decide) hr, hx, fun vs => ?_⟩
  have hs : Piece.Poses vs .not _ _ _ :=
    (Piece.poses_query hb).mono (m := .operand) (Nat.le_of_ble_eq_true rfl)
  -- NOT EXISTS is one text, of the tokens of two.
  have hn : Piece.Poses vs .not (Piece.texts ["NOT", " "] ++ _) _ _ :=
    hs.behind (by decide) fun is h => h.not
  exact hn

end Posed

/-- The rendering of a condition succeeds, and spells its expression with its queries. -/
theorem Means.posed {n : Node} {e : Expr} {qs : List Node} (hn : n.Means e qs)
    (hg : n.isGrouped = true) (hq : ∀ q ∈ qs, q.IsClosed Engine.postgres.dialect) :
    n.Posed e qs := by
  induction hn with
  | column c => exact posed_column c
  | reference t c => exact posed_reference t c
  | value v => exact posed_value v
  | parens hn ih => exact (ih hg hq).parens hn.not_isStatement
  | not hn ih => exact (ih hg hq).not hn
  | neg hn ih => exact (ih hg hq).neg hn
  | and hl hr ihl ihr =>
      rw [List.forall_mem_append] at hq
      rw [isGrouped, Bool.and_eq_true] at hg
      exact (ihl hg.1 hq.1).and hl hr (ihr hg.2 hq.2)
  | or hl hr ihl ihr =>
      rw [List.forall_mem_append] at hq
      rw [isGrouped, Bool.and_eq_true] at hg
      exact (ihl hg.1 hq.1).or (ihr hg.2 hq.2)
  | binary hop hl hr ihl ihr =>
      rw [List.forall_mem_append] at hq
      simp only [isGrouped, Bool.and_eq_true, Bool.not_eq_true'] at hg
      obtain ⟨⟨⟨hnl, hnr⟩, hgl⟩, hgr⟩ := hg
      exact (ihl hgl hq.1).binary hop hl hr hnl hnr (ihr hgr hq.2)
  | «exists» q => exact (hq _ (List.mem_singleton_self _)).posed_exists
  | notExists q => exact (hq _ (List.mem_singleton_self _)).posed_notExists

/-! ## The text of a condition -/

theorem IsClosed.read_render {n : Node} {b : Bool} {ps : List Piece}
    (hn : n.IsClosed Engine.postgres.dialect) (h : n.render Engine.postgres.dialect b = .ok ps) :
    Piece.Read Engine.postgres.dialect ps ∧ Piece.Balanced Engine.postgres.dialect ps := by
  obtain ⟨own, hown, hread, hb⟩ := hn
  obtain ⟨-, -, rs, hrs, rfl⟩ := render_eq_ok hown
  obtain ⟨-, -, qs, hqs, rfl⟩ := render_eq_ok h
  cases hrs.symm.trans hqs
  exact ⟨hread.wrapped Engine.postgres.isLexical _, hb.wrapped _⟩

theorem Means.isLexical {n : Node} {e : Expr} {qs : List Node} (hn : n.Means e qs) :
    n.isLexical = true := by
  cases hn <;> rfl

theorem read_operator {op : Operator} {b : Bool} {ps : List Piece}
    (h : (Node.operator op).render Engine.postgres.dialect b = .ok ps) :
    Piece.Read Engine.postgres.dialect ps ∧ Piece.Balanced Engine.postgres.dialect ps :=
  Node.read_render (by simp [walk_eq, parts, Node.isLexical]) h

/-- A condition is read to its end if its queries are. -/
theorem Means.read_render {n : Node} {e : Expr} {qs : List Node} (hn : n.Means e qs)
    (hq : ∀ q ∈ qs, q.IsClosed Engine.postgres.dialect) {b : Bool} {ps : List Piece}
    (h : n.render Engine.postgres.dialect b = .ok ps) :
    Piece.Read Engine.postgres.dialect ps ∧ Piece.Balanced Engine.postgres.dialect ps := by
  induction hn generalizing b ps with
  | column c => exact Node.read_render (by simp [walk_eq, parts, Node.isLexical]) h
  | reference t c =>
      refine Node.read_render ?_ h
      rcases t with _ | ⟨_ | schema, table⟩ <;> simp [walk_eq, parts, Node.isLexical]
  | value v => exact Node.read_render (by simp [walk_eq, parts, Node.isLexical]) h
  | parens hn ih =>
      refine read_of_parts rfl ?_ ?_ h
      · simp [parts, hn.isLexical]
      · simp only [parts, List.forall_mem_cons]
        exact ⟨fun b qs => ih hq, List.forall_mem_nil _⟩
  | and hl hr ihl ihr | or hl hr ihl ihr =>
      rw [List.forall_mem_append] at hq
      refine read_of_parts rfl ?_ ?_ h
      · simp [parts, hl.isLexical, hr.isLexical]
      · simp only [parts, List.forall_mem_cons]
        exact ⟨fun b qs => ihl hq.1, fun b qs => ihr hq.2, List.forall_mem_nil _⟩
  | not hn ih | neg hn ih =>
      refine read_of_parts rfl ?_ ?_ h
      · simp only [parts, List.forall_mem_cons]
        exact ⟨rfl, hn.isLexical, List.forall_mem_nil _⟩
      · simp only [parts, List.forall_mem_cons]
        exact ⟨fun b qs => read_operator, fun b qs => ih hq, List.forall_mem_nil _⟩
  | «exists» q | notExists q =>
      refine read_of_parts rfl ?_ ?_ h
      · simp [parts, Node.isLexical]
      · simp only [parts, List.forall_mem_cons]
        exact ⟨fun b qs => read_operator,
          fun b qs => (hq _ (List.mem_singleton_self _)).read_render, List.forall_mem_nil _⟩
  | binary hop hl hr ihl ihr =>
      rw [List.forall_mem_append] at hq
      refine read_of_parts rfl ?_ ?_ h
      · simp only [parts, List.forall_mem_cons]
        exact ⟨hl.isLexical, rfl, hr.isLexical, List.forall_mem_nil _⟩
      · simp only [parts, List.forall_mem_cons]
        exact ⟨fun b qs => ihl hq.1, fun b qs => read_operator, fun b qs => ihr hq.2,
          List.forall_mem_nil _⟩

/-- The text of a condition is read as its expression, with its queries. -/
theorem Means.read?_write {n : Node} {e : Expr} {qs : List Node} (hn : n.Means e qs)
    (hg : n.isGrouped = true) (hq : ∀ q ∈ qs, q.IsClosed Engine.postgres.dialect) :
    ∃ ps xs, n.render Engine.postgres.dialect false = .ok ps ∧
      qs.mapM (lexemes? Engine.postgres.dialect) = some xs ∧
      ∀ k vs, Piece.Binds vs k ps →
        Condition.read? Engine.postgres.dialect vs (Piece.write Engine.postgres.dialect k ps) =
          some ⟨e, xs⟩ := by
  obtain ⟨ps, xs, hr, hx, hs⟩ := hn.posed hg hq
  refine ⟨ps, xs, ?_, hx, fun k vs hk => ?_⟩
  · rw [render_nested hn.not_isStatement, hr]
  · obtain ⟨is, hi, hspells⟩ := hs vs k hk
    exact hi.read?_eq ((hn.read_render hq hr).1 k).scan?_eq hspells

/-- A condition compiles if its queries do, and its text is read as its expression with what the
queries compile to. -/
theorem Means.exists_compile {n : Node} {e : Expr} {qs : List Node} (hn : n.Means e qs)
    (hg : n.isGrouped = true) (hq : ∀ q ∈ qs, q.IsClosed Engine.postgres.dialect) :
    ∃ c xs, n.compile Engine.postgres.dialect = .ok c ∧
      qs.mapM (lexemes? Engine.postgres.dialect) = some xs ∧
      Condition.read? Engine.postgres.dialect c.parameters c.sql = some ⟨e, xs⟩ := by
  obtain ⟨ps, xs, hr, hx, hread⟩ := hn.read?_write hg hq
  exact ⟨_, xs, compile_eq_ok.mpr ⟨ps, hr, rfl⟩, hx, hread 1 _ (Piece.binds_boundValues ps)⟩

end Node

/-! ## Conditions with one text -/

namespace Piece

theorem tokens_blank (d : Dialect) (k : Nat) (ps : List Piece) :
    tokens d k (ps.map (mapValues Value.blank)) = tokens d k ps := by
  induction ps generalizing k with
  | nil => rfl
  | cons p ps ih => cases p <;> simp [mapValues, Value.blank, tokens, ih]

theorem boundValues_blank (ps : List Piece) :
    boundValues (ps.map (mapValues Value.blank)) =
      List.replicate (boundValues ps).length .null := by
  induction ps with
  | nil => rfl
  | cons p ps ih =>
      cases p with
      | text | name | literal => exact ih
      | bound v => exact congrArg (Value.null :: ·) ih

/-- Pieces without values are read with any number of nulls that is large enough. -/
theorem binds_blank {ps : List Piece} {j : Nat} (h : (boundValues ps).length ≤ j) :
    Binds (List.replicate j .null) 1 (ps.map (mapValues Value.blank)) := by
  refine ⟨[], List.replicate (j - (boundValues ps).length) .null, ?_, rfl⟩
  rw [boundValues_blank, List.nil_append, List.replicate_append_replicate, Nat.add_sub_cancel' h]

end Piece

namespace Node

/-- Blanking the bound values of a condition leaves its shape. -/
theorem Means.exists_blanked {n : Node} {e : Expr} {qs : List Node} (hn : n.Means e qs) :
    ∃ f, n.blanked.Means f (qs.map blanked) := by
  induction hn with
  | column c => exact ⟨_, .column c⟩
  | reference t c => exact ⟨_, .reference t c⟩
  | value v => exact ⟨_, .value .null⟩
  | parens _ ih =>
      obtain ⟨f, hf⟩ := ih
      exact ⟨_, .parens hf⟩
  | and _ _ ihl ihr =>
      obtain ⟨f, hf⟩ := ihl
      obtain ⟨g, hg⟩ := ihr
      rw [List.map_append]
      exact ⟨_, .and hf hg⟩
  | or _ _ ihl ihr =>
      obtain ⟨f, hf⟩ := ihl
      obtain ⟨g, hg⟩ := ihr
      rw [List.map_append]
      exact ⟨_, .or hf hg⟩
  | not _ ih =>
      obtain ⟨f, hf⟩ := ih
      exact ⟨_, .not hf⟩
  | neg _ ih =>
      obtain ⟨f, hf⟩ := ih
      exact ⟨_, .neg hf⟩
  | «exists» q => exact ⟨_, .exists (q.mapValues Value.blank)⟩
  | notExists q => exact ⟨_, .notExists (q.mapValues Value.blank)⟩
  | binary hop _ _ ihl ihr =>
      obtain ⟨f, hf⟩ := ihl
      obtain ⟨g, hg⟩ := ihr
      rw [List.map_append]
      exact ⟨_, .binary hop hf hg⟩

theorem isNotExists_blanked (n : Node) : n.blanked.isNotExists = n.isNotExists := by
  cases n
  case unary op n => cases op <;> rfl
  all_goals rfl

theorem Means.isGrouped_blanked {n : Node} {e : Expr} {qs : List Node} (hn : n.Means e qs) :
    n.blanked.isGrouped = n.isGrouped := by
  induction hn with
  | column | reference | value | «exists» | notExists => rfl
  | parens _ ih | not _ ih | neg _ ih => exact ih
  | and _ _ ihl ihr | or _ _ ihl ihr => exact congrArg₂ Bool.and ihl ihr
  | @binary l r _ _ _ _ op _ _ _ ihl ihr =>
      show (!l.blanked.isNotExists && !r.blanked.isNotExists && l.blanked.isGrouped &&
        r.blanked.isGrouped) = _
      rw [isNotExists_blanked, isNotExists_blanked, ihl, ihr]
      rfl

theorem IsClosed.blanked {d : Dialect} {n : Node} (hn : n.IsClosed d) : n.blanked.IsClosed d := by
  obtain ⟨ps, hr, hread, hb⟩ := hn
  refine ⟨ps.map (Piece.mapValues Value.blank), ?_, fun k => ?_, fun k => ?_⟩
  · rw [render_blanked, hr]
    rfl
  · rw [Piece.write_blank, Piece.tokens_blank]
    exact hread k
  · rw [Piece.tokens_blank]
    exact hb k

/-- The text of a condition is read, with nulls for its parameters, as the condition with its bound
values blanked. -/
theorem Means.read?_sql {n : Node} {e : Expr} {qs : List Node} (hn : n.Means e qs)
    (hg : n.isGrouped = true) (hq : ∀ q ∈ qs, q.IsClosed Engine.postgres.dialect) {c : Compiled}
    (hc : n.compile Engine.postgres.dialect = .ok c) :
    ∃ f xs, n.blanked.Means f (qs.map blanked) ∧
      (qs.map blanked).mapM (lexemes? Engine.postgres.dialect) = some xs ∧
      ∀ j, c.parameters.length ≤ j →
        Condition.read? Engine.postgres.dialect (List.replicate j .null) c.sql = some ⟨f, xs⟩ := by
  obtain ⟨f, hf⟩ := hn.exists_blanked
  have hblank : ∀ q ∈ qs.map blanked, q.IsClosed Engine.postgres.dialect := by
    rw [List.forall_mem_map]
    exact fun q hmem => (hq q hmem).blanked
  obtain ⟨_, xs, hr, hx, hread⟩ := hf.read?_write (hn.isGrouped_blanked.trans hg) hblank
  obtain ⟨ps, hps, rfl⟩ := compile_eq_ok.mp hc
  rw [render_blanked, hps] at hr
  cases hr
  refine ⟨f, xs, hf, hx, fun j hj => ?_⟩
  have htext := hread 1 (List.replicate j .null) (Piece.binds_blank hj)
  rwa [Piece.write_blank] at htext

/-- No operation of a binary operator means the same as one of a prefix operator. -/
theorem Means.not_unary {l r k : Node} {op u : Operator} {e : Expr} {qs rs : List Node}
    (h : (Node.binary l op r).Means e qs) : ¬(Node.unary u k).Means e rs := by
  cases h
  rintro ⟨⟩

/-- A condition compiles if its queries do. Its text is read as its expression, with what its
queries compile to; so two conditions with one text differ in bound values at most, and none is an
operation of a binary operator if the other is one of a prefix operator. -/
theorem Means.read?_compile {n : Node} {e : Expr} {qs : List Node} (hn : n.Means e qs)
    (hg : n.isGrouped = true) (hq : ∀ q ∈ qs, q.IsClosed Engine.postgres.dialect) :
    (∃ c xs, n.compile Engine.postgres.dialect = .ok c ∧
        qs.mapM (lexemes? Engine.postgres.dialect) = some xs ∧
        Condition.read? Engine.postgres.dialect c.parameters c.sql = some ⟨e, xs⟩) ∧
      ∀ (m : Node) (f : Expr) (rs : List Node) (c c' : Compiled), m.Means f rs →
        m.isGrouped = true →
        (∀ q ∈ rs, q.IsClosed Engine.postgres.dialect) →
        n.compile Engine.postgres.dialect = .ok c → m.compile Engine.postgres.dialect = .ok c' →
        c.sql = c'.sql →
        (∃ g qs' rs', n.blanked.Means g qs' ∧ m.blanked.Means g rs' ∧
          qs'.mapM (lexemes? Engine.postgres.dialect) =
            rs'.mapM (lexemes? Engine.postgres.dialect)) ∧
        ∀ l op r u k, n = .binary l op r → m ≠ .unary u k := by
  refine ⟨hn.exists_compile hg hq, fun m f rs c c' hm hg' hq' hc hc' hsql => ?_⟩
  obtain ⟨g, xs, hn, hx, hread⟩ := hn.read?_sql hg hq hc
  obtain ⟨g', ys, hm, hy, hread'⟩ := hm.read?_sql hg' hq' hc'
  have hleft := hread _ (Nat.le_add_right _ c'.parameters.length)
  have hright := hread' _ (Nat.le_add_left _ c.parameters.length)
  rw [hsql, hright] at hleft
  cases hleft
  refine ⟨⟨g, _, _, hn, hm, hx.trans hy.symm⟩, ?_⟩
  rintro l op r u k rfl rfl
  have hbinary : (Node.binary l.blanked op r.blanked).Means g _ := hn
  have hunary : (Node.unary u k.blanked).Means g _ := hm
  exact hbinary.not_unary hunary

/-- The rows of a table in which a column has a bound value. -/
def querySample : Select Node :=
  { fromItems := some [.table ⟨none, ⟨"t"⟩⟩]
    whereClause := some (.binary (.column ⟨⟨"a"⟩⟩) .eq (.value (.int 1) false)) }

/-- A condition with a query behind NOT EXISTS, behind NOT and EXISTS, and in parentheses beside a
binary operator. -/
def conditionSample : Node :=
  .or
    (.and (.unary .notExists (.select querySample))
      (.unary .not (.unary .exists (.select querySample))))
    (.binary (.parens (.unary .notExists (.select querySample))) .eq
      (.unary .neg (.value (.int 7) false)))

theorem Means.read?_compile_conditionSample :
    conditionSample.isGrouped = true ∧ (Node.select querySample).IsClosed Engine.postgres.dialect ∧
    conditionSample.compile Engine.postgres.dialect =
      .ok ⟨"NOT EXISTS (SELECT * FROM \"t\" WHERE \"a\" = $1) AND " ++
        "NOT EXISTS (SELECT * FROM \"t\" WHERE \"a\" = $2) OR " ++
        "(NOT EXISTS (SELECT * FROM \"t\" WHERE \"a\" = $3)) = -$4",
        [.int 1, .int 1, .int 1, .int 7]⟩ ∧
    ∃ c xs, conditionSample.compile Engine.postgres.dialect = .ok c ∧
      [.select querySample, .select querySample, .select querySample].mapM
        (lexemes? Engine.postgres.dialect) = some xs ∧
      Condition.read? Engine.postgres.dialect c.parameters c.sql =
        some ⟨.combine .or (.combine .and (.not (.call "EXISTS" [])) (.not (.call "EXISTS" [])))
          (.binary (.not (.call "EXISTS" [])) .eq (.neg (.value (.int 7)))), xs⟩ := by
  have hn : conditionSample.Means _
      [.select querySample, .select querySample, .select querySample] :=
    .or (.and (.notExists _) (.not (.exists _)))
      (.binary rfl (.parens (.notExists _)) (.neg (.value _)))
  have hwalk : ((Node.select querySample).walk Engine.postgres.dialect).all Node.isLexical =
      true := by cbv
  have hr : ∃ ps, (Node.select querySample).render Engine.postgres.dialect false = .ok ps :=
    ⟨_, by cbv⟩
  obtain ⟨ps, hr⟩ := hr
  have hq : (Node.select querySample).IsClosed Engine.postgres.dialect :=
    isClosed_of_isLexical hr (List.all_eq_true.mp hwalk)
  exact ⟨rfl, hq, by cbv, (hn.read?_compile rfl (by simp [hq])).1⟩

/-- A NOT EXISTS beside a binary operator, and the negation of an EXISTS beside it. -/
def besideSample : Node :=
  .binary (.unary .notExists (.select {})) .eq (.value (.bool true) false)

def negatedSample : Node :=
  .unary .not (.binary (.unary .exists (.select {})) .eq (.value (.bool true) false))

/-- A NOT EXISTS beside a binary operator has no parentheses, so that NOT is read as standing
before the whole operation. -/
theorem read?_besideSample :
    besideSample.Means (.binary (.not (.call "EXISTS" [])) .eq (.value (.bool true)))
      [.select {}] ∧
    (Node.select {}).IsClosed Engine.postgres.dialect ∧
    besideSample.compile Engine.postgres.dialect =
      .ok ⟨"NOT EXISTS (SELECT *) = $1", [.bool true]⟩ ∧
    negatedSample.compile Engine.postgres.dialect =
      .ok ⟨"NOT EXISTS (SELECT *) = $1", [.bool true]⟩ ∧
    (Condition.read? Engine.postgres.dialect [.bool true] "NOT EXISTS (SELECT *) = $1").map
        Condition.expr =
      some (.not (.binary (.call "EXISTS" []) .eq (.value (.bool true)))) ∧
    Expr.not (.binary (.call "EXISTS" []) .eq (.value (.bool true))) ≠
      .binary (.not (.call "EXISTS" [])) .eq (.value (.bool true)) := by
  have hwalk : ((Node.select {}).walk Engine.postgres.dialect).all Node.isLexical = true := by cbv
  have hr : ∃ ps, (Node.select {}).render Engine.postgres.dialect false = .ok ps := ⟨_, by cbv⟩
  obtain ⟨ps, hr⟩ := hr
  have hq : (Node.select {}).IsClosed Engine.postgres.dialect :=
    isClosed_of_isLexical hr (List.all_eq_true.mp hwalk)
  have hn : negatedSample.Means (.not (.binary (.call "EXISTS" []) .eq (.value (.bool true))))
      [.select {}] := .not (.binary rfl (.exists _) (.value _))
  have hc : negatedSample.compile Engine.postgres.dialect =
      .ok ⟨"NOT EXISTS (SELECT *) = $1", [.bool true]⟩ := by cbv
  refine ⟨.binary rfl (.notExists _) (.value _), hq, by cbv, hc, ?_, by simp⟩
  obtain ⟨c, xs, hcompile, -, hread⟩ := hn.exists_compile rfl (by simpa using hq)
  cases hc.symm.trans hcompile
  rw [hread]
  rfl

end Node

end SqlTree
