import SqlTree.Proofs.Predicate.Spelling

/-! # Queries in a predicate

A query in parentheses may hold any text. What stands in the parentheses behind an EXISTS is
therefore cut out before the rest is read as an expression, and kept beside it: the expression has
a call of EXISTS without arguments for each query, and the queries stand in the order of these
calls. -/

namespace SqlTree

/-! ## Cutting queries out -/

/-- Where a token stands. -/
inductive Cut.Position where
  | outside
  /-- Right behind EXISTS. -/
  | behind
  /-- In a query, within some parentheses of its own and behind some of its tokens. -/
  | inside (depth : Nat) (read : List Token)
deriving DecidableEq, Repr

/-- What has been read so far: where the next token stands, the tokens outside of queries, and the
queries. -/
structure Cut where
  position : Cut.Position
  outer : List Token
  queries : List (List Token)

namespace Cut

/-- A token that stands outside of queries. -/
def pass (s : Cut) (t : Token) : Cut :=
  ⟨if t.isKeyword "EXISTS" then .behind else .outside, s.outer ++ [t], s.queries⟩

/-- A token of a query. -/
def keep (s : Cut) (depth : Nat) (read : List Token) (t : Token) : Cut :=
  { s with position := .inside depth (read ++ [t]) }

/-- One token. A query ends with the parenthesis that closes the one behind its EXISTS. -/
def step (s : Cut) (t : Token) : Cut :=
  match s.position with
  | .outside => s.pass t
  | .behind => if t = Token.opening then { s.pass t with position := .inside 0 [] } else s.pass t
  | .inside k read =>
    if t = Token.opening then s.keep (k + 1) read t
    else if t = Token.closing then
      match k with
      | 0 => { s.pass t with queries := s.queries ++ [read] }
      | k + 1 => s.keep k read t
    else s.keep k read t

/-- Nothing has been read. -/
def start : Cut := ⟨.outside, [], []⟩

end Cut

/-- A token of a query; a bound value stands in the place of its mark. -/
inductive Lexeme where
  | token (t : Token)
  | value (v : Value)

/-- A token, if placeholders stand for the given values. -/
def Lexeme.ofToken? (vs : List Value) : Token → Option Lexeme
  | .placeholder s => (Part.parameter? vs s).map .value
  | t => some (.token t)

/-- An expression with a call of EXISTS for each query, and the queries in the order of the
calls. -/
structure Condition where
  expr : Expr
  queries : List (List Lexeme)

/-- The condition that a text spells, if placeholders stand for the given values. -/
def Condition.read? (d : Dialect) (vs : List Value) (s : String) : Option Condition := do
  let cut := (← d.scan? s).foldl Cut.step Cut.start
  match cut.position with
  | .inside .. => none
  | .outside | .behind =>
    return ⟨← Expr.ofTokens? d vs cut.outer,
      ← cut.queries.mapM fun ts => ts.mapM (Lexeme.ofToken? vs)⟩

/-! ## What is left of tokens -/

namespace Token

/-- Whether a token neither opens nor closes anything. -/
def passes (t : Token) : Bool := t ≠ opening && t ≠ closing && !t.isKeyword "EXISTS"

/-- Tokens that leave some tokens outside of queries, and some queries. -/
def Cuts (ts us : List Token) (qs : List (List Token)) : Prop :=
  ∀ vs rs, ts.foldl Cut.step ⟨.outside, vs, rs⟩ = ⟨.outside, vs ++ us, rs ++ qs⟩

variable {ts us ts' us' : List Token} {qs qs' : List (List Token)}

theorem cuts_nil : Cuts [] [] [] := fun vs rs => by
  rw [List.append_nil, List.append_nil]
  rfl

theorem Cuts.append (h : Cuts ts us qs) (h' : Cuts ts' us' qs') :
    Cuts (ts ++ ts') (us ++ us') (qs ++ qs') := fun vs rs => by
  rw [List.foldl_append, h, h', List.append_assoc, List.append_assoc]

theorem cuts_token {t : Token} (h : t.isKeyword "EXISTS" = false) : Cuts [t] [t] [] :=
  fun vs rs => by
    rw [List.append_nil]
    show Cut.pass ⟨.outside, vs, rs⟩ t = _
    rw [Cut.pass, h]
    rfl

theorem cuts_tokens (h : ∀ t ∈ ts, t.isKeyword "EXISTS" = false) : Cuts ts ts [] := by
  induction ts with
  | nil => exact cuts_nil
  | cons t ts ih =>
      rw [List.forall_mem_cons] at h
      exact (cuts_token h.1).append (ih h.2)

theorem Cuts.enclosed (h : Cuts ts us qs) :
    Cuts (opening :: (ts ++ [closing])) (opening :: (us ++ [closing])) qs := by
  have ho : Cuts [opening] [opening] [] := cuts_token rfl
  have hc : Cuts [closing] [closing] [] := cuts_token rfl
  have hw := ho.append (h.append hc)
  rwa [List.append_nil, List.nil_append] at hw

theorem step_inside {t : Token} {k j : Nat} (h : depth k [t] = some j) (read vs : List Token)
    (rs : List (List Token)) :
    Cut.step ⟨.inside k read, vs, rs⟩ t = ⟨.inside j (read ++ [t]), vs, rs⟩ := by
  by_cases ho : t = opening
  · subst ho
    cases h
    rfl
  · by_cases hc : t = closing
    · subst hc
      cases k with
      | zero => cases h
      | succ k =>
          cases h
          rfl
    · rw [depth, if_neg ho, if_neg hc] at h
      cases h
      simp [Cut.step, Cut.keep, ho, hc]

/-- Tokens of a query are kept, as long as none closes it. -/
theorem foldl_step_inside {k j : Nat} (h : depth k ts = some j) (read vs : List Token)
    (rs : List (List Token)) :
    ts.foldl Cut.step ⟨.inside k read, vs, rs⟩ = ⟨.inside j (read ++ ts), vs, rs⟩ := by
  induction ts generalizing k read with
  | nil =>
      cases h
      rw [List.append_nil]
      rfl
  | cons t ts ih =>
      rw [← List.singleton_append, depth_append] at h
      obtain ⟨i, ht, hts⟩ := Option.bind_eq_some_iff.mp h
      rw [List.foldl_cons, step_inside ht, ih hts, List.append_assoc, List.singleton_append]

/-- What stands in the parentheses behind EXISTS is cut out, if its parentheses close. -/
theorem cuts_query (h : IsBalanced ts) :
    Cuts (.word "EXISTS" :: opening :: (ts ++ [closing])) [.word "EXISTS", opening, closing] [ts] :=
  fun vs rs => by
    have ho : [Token.word "EXISTS", opening].foldl Cut.step ⟨.outside, vs, rs⟩ =
        ⟨.inside 0 [], vs ++ [.word "EXISTS"] ++ [opening], rs⟩ := rfl
    have hc : Cut.step ⟨.inside 0 ts, vs ++ [.word "EXISTS"] ++ [opening], rs⟩ closing =
        ⟨.outside, vs ++ [.word "EXISTS"] ++ [opening] ++ [closing], rs ++ [ts]⟩ := rfl
    show ([Token.word "EXISTS", opening] ++ (ts ++ [closing])).foldl _ _ = _
    rw [List.foldl_append, ho, List.foldl_append, foldl_step_inside (h 0), List.nil_append,
      List.foldl_cons, hc]
    simp

end Token

/-! ## Parts and queries -/

namespace Part

variable {d : Dialect} {vs : List Value}

/-- Tokens that leave some parts in the open frame, and some queries. -/
def Poses (d : Dialect) (vs : List Value) (ts : List Token) (is : List Part)
    (qs : List (List Lexeme)) : Prop :=
  ∃ us rs, Token.Cuts ts us rs ∧ Leaves d vs us is ∧
    (rs.mapM fun ts => ts.mapM (Lexeme.ofToken? vs)) = some qs

variable {ts us : List Token} {is js : List Part} {qs rs : List (List Lexeme)}

theorem Poses.append (h : Poses d vs ts is qs) (h' : Poses d vs us js rs) :
    Poses d vs (ts ++ us) (is ++ js) (qs ++ rs) := by
  obtain ⟨ts', qs', hc, hl, hq⟩ := h
  obtain ⟨us', rs', hc', hl', hr⟩ := h'
  refine ⟨_, _, hc.append hc', hl.append hl', ?_⟩
  rw [List.mapM_append, hq, hr]
  rfl

theorem Leaves.poses (h : Leaves d vs ts is) (ht : ∀ t ∈ ts, t.isKeyword "EXISTS" = false) :
    Poses d vs ts is [] :=
  ⟨ts, [], Token.cuts_tokens ht, h, rfl⟩

theorem poses_tokens (h : ∀ t ∈ ts, t.passes = true) : Poses d vs ts (ts.map .token) [] := by
  simp only [Token.passes, Bool.and_eq_true, decide_eq_true_eq, Bool.not_eq_true'] at h
  exact (leaves_tokens fun t ht => (h t ht).1).poses fun t ht => (h t ht).2

theorem Poses.enclosed {es : List Expr} (h : Poses d vs ts is qs) (hr : readAll d vs is = some es) :
    Poses d vs (Token.opening :: (ts ++ [Token.closing])) [.group es] qs := by
  obtain ⟨us, rs, hc, hl, hq⟩ := h
  exact ⟨_, _, hc.enclosed, hl.enclosed hr, hq⟩

theorem poses_query {ls : List Lexeme} (h : Token.IsBalanced ts)
    (hl : ts.mapM (Lexeme.ofToken? vs) = some ls) :
    Poses d vs (.word "EXISTS" :: Token.opening :: (ts ++ [Token.closing]))
      [.token (.word "EXISTS"), .group []] [ls] := by
  refine ⟨_, _, Token.cuts_query h, ?_, ?_⟩
  · have hw : Leaves d vs [.word "EXISTS"] [.token (.word "EXISTS")] :=
      leaves_token (by decide) (by decide)
    exact hw.append (leaves_nil.enclosed rfl)
  · rw [List.mapM_cons, hl]
    rfl

/-- A text is read as the expression that its parts spell, with the queries that it poses. -/
theorem Poses.read?_eq {s : String} {e : Expr} {l : Level} (hs : d.scan? s = some ts)
    (h : Poses d vs ts is qs) (he : Spells d vs l is e) :
    Condition.read? d vs s = some ⟨e, qs⟩ := by
  obtain ⟨us, rs, hc, hl, hq⟩ := h
  have hcut : ts.foldl Cut.step Cut.start = ⟨.outside, us, rs⟩ := hc [] []
  rw [Condition.read?, hs]
  simp [hcut, hl.ofTokens?_eq he, hq]

end Part

end SqlTree
