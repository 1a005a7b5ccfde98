import SqlTree.Proofs.Lexical.Integrity
import SqlTree.Proofs.Predicate.Operand

/-! # Predicates spell their expressions

The rendering of a predicate in PostgreSQL spells its expression, at the level of its outermost
operator. An operand that would be read at another level stands in parentheses. -/

namespace SqlTree

namespace Part

variable {d : Dialect} {vs : List Value}

/-! ## Frames -/

/-- Tokens that leave some parts in the open frame. -/
def Leaves (d : Dialect) (vs : List Value) (ts : List Token) (is : List Part) : Prop :=
  ∀ js fs, ts.foldlM (step d vs) (js :: fs) = some ((js ++ is) :: fs)

theorem leaves_nil : Leaves d vs [] [] := fun js fs => by
  rw [List.append_nil]
  rfl

theorem Leaves.append {ts us : List Token} {is js : List Part} (h : Leaves d vs ts is)
    (h' : Leaves d vs us js) : Leaves d vs (ts ++ us) (is ++ js) := fun ks fs => by
  rw [List.foldlM_append, h, ← List.append_assoc]
  exact h' _ fs

theorem leaves_token {t : Token} (ho : t ≠ Token.opening) (hc : t ≠ Token.closing) :
    Leaves d vs [t] [.token t] := fun js fs => by
  have hs : step d vs (js :: fs) t = some ((js ++ [.token t]) :: fs) := by simp [step, ho, hc]
  rw [List.foldlM_cons, hs]
  rfl

theorem leaves_of_isPlain_eq_false {t : Token} (h : t.isPlain = false) :
    Leaves d vs [t] [.token t] :=
  leaves_token (Token.ne_of_isPlain_eq_false h).1 (Token.ne_of_isPlain_eq_false h).2

theorem leaves_tokens {ts : List Token} (h : ∀ t ∈ ts, t ≠ Token.opening ∧ t ≠ Token.closing) :
    Leaves d vs ts (ts.map .token) := by
  induction ts with
  | nil => exact leaves_nil
  | cons t ts ih =>
      rw [List.forall_mem_cons] at h
      exact (leaves_token h.1.1 h.1.2).append (ih h.2)

theorem Leaves.enclosed {ts : List Token} {is : List Part} {es : List Expr}
    (h : Leaves d vs ts is) (hr : readAll d vs is = some es) :
    Leaves d vs (Token.opening :: (ts ++ [Token.closing])) [.group es] := fun js fs => by
  have ho : step d vs (js :: fs) Token.opening = some ([] :: js :: fs) := rfl
  have hc : step d vs (is :: js :: fs) Token.closing = some ((js ++ [.group es]) :: fs) := by
    show (readAll d vs is).map (fun es => (js ++ [.group es]) :: fs) = _
    rw [hr]
    rfl
  rw [List.foldlM_cons, ho, Option.bind_eq_bind, Option.bind_some, List.foldlM_append, h,
    Option.bind_eq_bind, Option.bind_some, List.nil_append, List.foldlM_cons, hc]
  rfl

/-- Tokens that leave parts which spell an expression are read as the expression. -/
theorem Leaves.ofTokens?_eq {ts : List Token} {is : List Part} {e : Expr} {l : Level}
    (h : Leaves d vs ts is) (hs : Spells d vs l is e) : Expr.ofTokens? d vs ts = some e := by
  have hr : readOr d vs is = some e := (hs.mono (Nat.zero_le _) : Spells d vs .or is e).2
  rw [Expr.ofTokens?, h]
  exact hr

end Part

/-! ## Pieces -/

namespace Piece

open SqlTree.Part (Leaves)

variable {d : Dialect} {vs : List Value}

/-- Pieces whose bound values are the given ones from a position on, counted from one. -/
def Binds (vs : List Value) (k : Nat) (ps : List Piece) : Prop :=
  ∃ us ws, vs = us ++ boundValues ps ++ ws ∧ k = us.length + 1

theorem boundValues_append (ps qs : List Piece) :
    boundValues (ps ++ qs) = boundValues ps ++ boundValues qs :=
  List.filterMap_append

theorem Binds.left {k : Nat} {ps qs : List Piece} (h : Binds vs k (ps ++ qs)) : Binds vs k ps := by
  obtain ⟨us, ws, rfl, rfl⟩ := h
  exact ⟨us, boundValues qs ++ ws, by simp [boundValues_append], rfl⟩

theorem Binds.right {k : Nat} {ps qs : List Piece} (h : Binds vs k (ps ++ qs)) :
    Binds vs (k + (boundValues ps).length) qs := by
  obtain ⟨us, ws, rfl, rfl⟩ := h
  refine ⟨us ++ boundValues ps, ws, by simp [boundValues_append], ?_⟩
  rw [List.length_append]
  omega

/-- Pieces that spell an expression at a level. -/
def Spells (d : Dialect) (vs : List Value) (l : Level) (ps : List Piece) (e : Expr) : Prop :=
  ∀ k, Binds vs k ps → ∃ is, Leaves d vs (tokens d k ps) is ∧ Part.Spells d vs l is e

/-- Pieces that spell expressions with commas between them. -/
def SpellsAll (d : Dialect) (vs : List Value) (ps : List Piece) (es : List Expr) : Prop :=
  ∀ k, Binds vs k ps → ∃ is, Leaves d vs (tokens d k ps) is ∧ Part.readAll d vs is = some es

variable {ps qs : List Piece} {e f : Expr}

theorem Spells.mono {l m : Level} (hl : l.rank ≤ m.rank) (h : Spells d vs m ps e) :
    Spells d vs l ps e := fun k hk => by
  obtain ⟨is, hi, hs⟩ := h k hk
  exact ⟨is, hi, hs.mono hl⟩

theorem Spells.or (h : Spells d vs .or ps e) (h' : Spells d vs .or qs f) :
    Spells d vs .or (ps ++ .text " OR " :: qs) (.combine .or e f) := fun k hk => by
  obtain ⟨is, hi, hs⟩ := h k hk.left
  obtain ⟨js, hj, ht⟩ := h' _ (show Binds vs _ qs from hk.right)
  refine ⟨_, ?_, hs.or ht⟩
  rw [tokens_append]
  exact hi.append ((Part.leaves_token (t := .word "OR") (by decide) (by decide)).append hj)

theorem Spells.and (h : Spells d vs .and ps e) (h' : Spells d vs .and qs f) :
    Spells d vs .and (ps ++ .text " AND " :: qs) (.combine .and e f) := fun k hk => by
  obtain ⟨is, hi, hs⟩ := h k hk.left
  obtain ⟨js, hj, ht⟩ := h' _ (show Binds vs _ qs from hk.right)
  refine ⟨_, ?_, hs.and ht⟩
  rw [tokens_append]
  exact hi.append ((Part.leaves_token (t := .word "AND") (by decide) (by decide)).append hj)

theorem Spells.not (h : Spells d vs .not ps e) :
    Spells d vs .not (.text "NOT" :: .text " " :: ps) (.not e) := fun k hk => by
  obtain ⟨is, hi, hs⟩ := h k hk
  exact ⟨_, (Part.leaves_token (t := .word "NOT") (by decide) (by decide)).append hi, hs.not⟩

theorem Spells.neg (h : Spells d vs .operand ps e) :
    Spells d vs .operand (.text "-" :: ps) (.neg e) := fun k hk => by
  obtain ⟨is, hi, hs⟩ := h k hk
  exact ⟨_, (Part.leaves_token (t := .symbol "-") (by decide) (by decide)).append hi, hs.neg⟩

theorem Spells.wrapped (h : Spells d vs .or ps e) :
    Spells d vs .operand (.text "(" :: ps ++ [.text ")"]) e := fun k hk => by
  obtain ⟨is, hi, hs⟩ := h k (show Binds vs k (ps ++ [.text ")"]) from hk).left
  refine ⟨_, ?_, Part.spells_group e⟩
  have hg := hi.enclosed hs.readAll
  rw [List.cons_append, tokens, tokens_append]
  exact hg

theorem Spells.binary {op : Operator} (hop : op.isUnary = false)
    (h : Spells Engine.postgres.dialect vs .operand ps e)
    (h' : Spells Engine.postgres.dialect vs .operand qs f) :
    Spells Engine.postgres.dialect vs .binary
      (ps ++ .text " " :: .text (Engine.postgres.dialect.operator op) :: .text " " :: qs)
      (.binary e op f) := fun k hk => by
  obtain ⟨is, hi, hs⟩ := h k hk.left
  obtain ⟨js, hj, ht⟩ := h' _ (show Binds vs _ qs from hk.right)
  have ho : ∀ t ∈ Text.tokens (Engine.postgres.dialect.operator op),
      t ≠ Token.opening ∧ t ≠ Token.closing := by
    cases op <;> decide
  refine ⟨_, ?_, hs.binary hop ht⟩
  rw [tokens_append]
  exact hi.append ((Part.leaves_tokens ho).append hj)

theorem SpellsAll.call {s : String} {es : List Expr} (h : SpellsAll d vs ps es)
    (hs : Text.isCallable s = true) :
    Spells d vs .operand (.text s :: .text "(" :: ps ++ [.text ")"]) (.call s es) := fun k hk => by
  obtain ⟨is, hi, hr⟩ := h k (show Binds vs k (ps ++ [.text ")"]) from hk).left
  have hn : ∀ t ∈ Text.tokens s, t ≠ Token.opening ∧ t ≠ Token.closing := by
    simp only [Text.isCallable, Bool.and_eq_true, List.all_eq_true] at hs
    intro t ht
    have hc := hs.2 t ht
    refine ⟨?_, ?_⟩
    all_goals
      rintro rfl
      cases hc
  refine ⟨_, ?_, Part.spells_call hs es⟩
  rw [List.cons_append, List.cons_append, tokens, tokens, tokens_append]
  exact (Part.leaves_tokens hn).append (hi.enclosed hr)

theorem spellsAll_nil : SpellsAll d vs [] [] := fun _ _ => ⟨[], Part.leaves_nil, rfl⟩

theorem spellsAll_commas {pss : List (List Piece)} {es : List Expr}
    (h : List.Forall₂ (Spells d vs .or) pss es) :
    SpellsAll d vs (List.intercalate [.text ", "] pss) es := by
  induction h with
  | nil => exact spellsAll_nil
  | @cons ps e pss es hp hps ih =>
      intro k hk
      cases hps with
      | nil =>
          rw [List.intercalate_singleton] at hk ⊢
          obtain ⟨is, hi, hs⟩ := hp k hk
          exact ⟨is, hi, hs.readAll⟩
      | @cons qs f qss fs hq hqs =>
          rw [List.intercalate_cons_cons, List.append_assoc] at hk ⊢
          obtain ⟨is, hi, hs⟩ := hp k hk.left
          obtain ⟨js, hj, hr⟩ := ih _ (show Binds vs _ _ from hk.right)
          refine ⟨_, ?_, hs.readAll_cons (List.cons_ne_nil _ _) hr⟩
          rw [tokens_append]
          exact hi.append ((Part.leaves_token (t := .symbol ",") (by decide) (by decide)).append hj)

/-! ## Names and values -/

/-- Names with a point between each two. -/
def path (s : String) (ss : List String) : List Piece :=
  .name s :: ss.flatMap fun s => [.text ".", .name s]

theorem spells_path (s : String) (ss : List String) :
    Spells d vs .operand (path s ss) (.column (s :: ss)) := fun k _ => by
  have hp (ss : List String) (j : Nat) :
      Leaves d vs (tokens d j (ss.flatMap fun s => [.text ".", .name s])) (Part.points ss) := by
    induction ss with
    | nil => exact Part.leaves_nil
    | cons s ss ih =>
        exact (Part.leaves_token (t := .symbol ".") (by decide) (by decide)).append
          ((Part.leaves_of_isPlain_eq_false rfl).append ih)
  exact ⟨_, (Part.leaves_of_isPlain_eq_false rfl).append (hp ss k),
    Part.spells_column s ss⟩

theorem spells_bound (v : Value) :
    Spells Engine.postgres.dialect vs .operand [.bound v] (.value v) := fun k hk => by
  obtain ⟨us, ws, rfl, rfl⟩ := hk
  have hv : (us ++ boundValues [.bound v] ++ ws)[us.length]? = some v := by
    simp [boundValues, bound?]
  exact ⟨_, Part.leaves_of_isPlain_eq_false rfl, Part.spells_value hv⟩

end Piece

/-! ## Nodes -/

/-- The level of the outermost operator of a predicate. -/
def Node.level : Node → Level
  | .or .. => .or
  | .and .. => .and
  | .unary .not _ => .not
  | .binary .. => .binary
  | _ => .operand

/-- The level an operand in a position is read at. -/
def OperandPosition.level : OperandPosition → Level
  | .conjunction => .and
  | .prefixed => .not
  | .binary | .negated => .operand

/-- Whether a node is no call, or the call of a name that is read as the name of a function. -/
def Node.isCallable : Node → Bool
  | .function name _ => Text.isCallable name
  | _ => true

/-- An operand without parentheses is bound at least as tightly as its position asks for. -/
theorem OperandPosition.rank_level_le {p : OperandPosition} {n : Node} {e : Expr}
    (he : n.expr? = some e) (h : p.parenthesizes n = false) : p.level.rank ≤ n.level.rank := by
  cases n
  case unary op n =>
    have hop : op = .not ∨ op = .neg := by cases op <;> first | cases he | simp
    rcases hop with rfl | rfl <;> cases p <;> first | exact Nat.le_of_ble_eq_true rfl | cases h
  all_goals cases p <;> first | exact Nat.le_of_ble_eq_true rfl | cases h

theorem Piece.Spells.operand {d : Dialect} {vs : List Value} {p : OperandPosition} {n : Node}
    {ps : List Piece} {e : Expr} (h : Spells d vs n.level ps e) (he : n.expr? = some e) :
    Spells d vs p.level (Piece.wrapped (p.parenthesizes n) ps) e := by
  cases hp : p.parenthesizes n with
  | false => exact h.mono (OperandPosition.rank_level_le he hp)
  | true =>
      have hw : Spells d vs .operand (Piece.wrapped true ps) e := (h.mono (Nat.zero_le _)).wrapped
      exact hw.mono (by cases p <;> decide)

section

open Rendering

theorem Node.render_nested {d : Dialect} {n : Node} (h : n.kind.isStatement = false) (b : Bool) :
    n.render d b = n.render d true := by
  rw [render_eq, render_eq, h, Bool.and_false, Bool.and_false]

theorem Node.not_isStatement_of_expr? {n : Node} {e : Expr} (he : n.expr? = some e) :
    n.kind.isStatement = false := by
  cases n <;> first | rfl | cases he

theorem Rendering.parenthesized_ok (w : Bool) (ps : List Piece) :
    parenthesized w (.ok ps) = .ok (Piece.wrapped w ps) := by
  cases w <;> rfl

theorem Rendering.separated_ok (s : String) (pss : List (List Piece)) :
    separated s (pss.map .ok) = .ok (List.intercalate [.text s] pss) := by
  induction pss with
  | nil => rfl
  | cons ps pss ih =>
      cases pss with
      | nil => rw [List.intercalate_singleton]; rfl
      | cons qs pss =>
          rw [List.map_cons] at ih
          rw [List.map_cons, List.map_cons, separated, ih, List.intercalate_cons_cons]
          · show Except.ok _ = _
            simp
          · exact List.cons_ne_nil _ _

theorem Node.exists_renderAll {d : Dialect} {vs : List Value} {ns : List Node} {es : List Expr}
    (hes : Node.exprs? ns = some es)
    (h : ∀ n ∈ ns, ∀ e, n.expr? = some e →
      ∃ ps, n.render d true = .ok ps ∧ Piece.Spells d vs n.level ps e) :
    ∃ pss : List (List Piece), Node.renderAll d true ns = pss.map .ok ∧
      List.Forall₂ (Piece.Spells d vs .or) pss es := by
  induction ns generalizing es with
  | nil =>
      cases hes
      exact ⟨[], rfl, .nil⟩
  | cons n ns ih =>
      rw [List.forall_mem_cons] at h
      obtain ⟨e, fs, he, hfs, rfl⟩ := exprs?_cons_eq_some.mp hes
      obtain ⟨ps, hr, hps⟩ := h.1 e he
      obtain ⟨pss, hrs, hpss⟩ := ih hfs h.2
      refine ⟨ps :: pss, ?_, .cons (hps.mono (Nat.zero_le _)) hpss⟩
      rw [renderAll, hr, hrs, List.map_cons]

/-- The rendering of a predicate succeeds, and spells its expression. -/
theorem Node.render_spells {n : Node} {e : Expr} (he : n.expr? = some e)
    (hc : ∀ m ∈ n.walk Engine.postgres.dialect, m.isCallable = true) (vs : List Value) :
    ∃ ps, n.render Engine.postgres.dialect true = .ok ps ∧
      Piece.Spells Engine.postgres.dialect vs n.level ps e := by
  induction n using Node.induction_parts Engine.postgres.dialect generalizing e with
  | step n ih =>
      rw [walk_eq, List.forall_mem_cons] at hc
      have hparts : ∀ m ∈ n.parts Engine.postgres.dialect, ∀ f, m.expr? = some f →
          ∃ ps, m.render Engine.postgres.dialect true = .ok ps ∧
            Piece.Spells Engine.postgres.dialect vs m.level ps f := fun m hm f hf =>
        ih m hm hf fun k hk => hc.2 k (List.mem_flatMap.mpr ⟨m, hm, hk⟩)
      cases n
      case column c =>
        cases he
        exact ⟨_, rfl, Piece.spells_path c.column.name []⟩
      case reference t c =>
        cases c
        case column c =>
          rcases t with _ | ⟨_ | schema, table⟩ <;> cases he
          · exact ⟨_, rfl, Piece.spells_path c.column.name []⟩
          · exact ⟨_, rfl, Piece.spells_path table.name [c.column.name]⟩
          · exact ⟨_, rfl, Piece.spells_path schema.name [table.name, c.column.name]⟩
        all_goals cases he
      case value v immediate =>
        cases immediate with
        | true => cases he
        | false =>
            cases he
            exact ⟨_, rfl, Piece.spells_bound v⟩
      case binary l op r =>
        obtain ⟨hop, f, g, hf, hg, rfl⟩ := expr?_binary_eq_some.mp he
        obtain ⟨ps, hl, hps⟩ := hparts l (by simp [parts]) f hf
        obtain ⟨qs, hr, hqs⟩ := hparts r (by simp [parts]) g hg
        refine ⟨_, ?_, (hps.operand (p := .binary) hf).binary hop
          (hqs.operand (p := .binary) hg)⟩
        rw [render, hl, hr, OperandPosition.render, OperandPosition.render, parenthesized_ok,
          parenthesized_ok]
        show Except.ok _ = _
        simp
      case and l r =>
        obtain ⟨f, g, hf, hg, rfl⟩ := expr?_and_eq_some.mp he
        obtain ⟨ps, hl, hps⟩ := hparts l (by simp [parts]) f hf
        obtain ⟨qs, hr, hqs⟩ := hparts r (by simp [parts]) g hg
        refine ⟨_, ?_, (hps.operand (p := .conjunction) hf).and
          (hqs.operand (p := .conjunction) hg)⟩
        rw [render, hl, hr, OperandPosition.render, OperandPosition.render, parenthesized_ok,
          parenthesized_ok]
        show Except.ok _ = _
        simp
      case or l r =>
        obtain ⟨f, g, hf, hg, rfl⟩ := expr?_or_eq_some.mp he
        obtain ⟨ps, hl, hps⟩ := hparts l (by simp [parts]) f hf
        obtain ⟨qs, hr, hqs⟩ := hparts r (by simp [parts]) g hg
        refine ⟨_, ?_, (hps.mono (Nat.zero_le _)).or (hqs.mono (Nat.zero_le _))⟩
        rw [render, hl, hr]
        show Except.ok _ = _
        simp
      case unary op n =>
        obtain ⟨f, hf, hop⟩ := expr?_unary_eq_some.mp he
        obtain ⟨ps, hr, hps⟩ := hparts n (by simp [parts]) f hf
        rcases hop with ⟨rfl, rfl⟩ | ⟨rfl, rfl⟩
        · refine ⟨_, ?_, (hps.operand (p := .prefixed) hf).not⟩
          rw [render, if_neg (by decide), hr, OperandPosition.render, parenthesized_ok]
          show Except.ok _ = _
          simp
          rfl
        · refine ⟨_, ?_, (hps.operand (p := .negated) hf).neg⟩
          rw [render, if_pos rfl, hr, OperandPosition.render, parenthesized_ok]
          show Except.ok _ = _
          simp
          rfl
      case parens n =>
        rw [expr?] at he
        obtain ⟨ps, hr, hps⟩ := hparts n (by simp [parts]) e he
        refine ⟨_, ?_, (hps.mono (Nat.zero_le _)).wrapped⟩
        rw [render, render_nested (not_isStatement_of_expr? he), hr, parenthesized_ok]
        rfl
      case function name ns =>
        obtain ⟨es, hes, rfl⟩ := expr?_function_eq_some.mp he
        obtain ⟨pss, hr, hps⟩ := exists_renderAll hes hparts
        refine ⟨_, ?_, (Piece.spellsAll_commas hps).call hc.1⟩
        rw [render, hr, separated_ok, parenthesized_ok]
        show Except.ok _ = _
        simp [Piece.wrapped]
      all_goals cases he

end

end SqlTree
