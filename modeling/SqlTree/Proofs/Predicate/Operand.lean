import SqlTree.Proofs.Predicate.Level

/-! # What operands and operators spell

Columns, values and calls are read as such, and a binary operator between two operands as the
operation. -/

namespace SqlTree

/-! ## The text of tokens -/

namespace Token

/-- The text of a token of plain text. -/
def text : Token → String
  | .word w => w
  | .symbol s => s
  | _ => ""

/-- The characters of tokens of plain text. -/
def chars (ts : List Token) : List Char := ts.flatMap fun t => t.text.toList

theorem chars_append (ts us : List Token) : chars (ts ++ us) = chars ts ++ chars us :=
  List.flatMap_append

end Token

/-- The characters of the pending token. -/
def Mode.chars (m : Mode) : List Char := Token.chars (m.pending?.getD [])

theorem Mode.chars_begin? {c : Char} {s : Scan} (h : begin? c = some s) (hc : c ≠ ' ') :
    Token.chars s.1 ++ s.2.chars = [c] := by
  rw [begin?] at h
  split at h
  · cases h
    simp [Mode.chars, pending?, Token.chars, Token.text]
  · split at h
    · cases h
      rw [separatorTokens, if_neg hc]
      simp [Mode.chars, pending?, Token.chars, Token.text]
    · split at h <;> cases h
      simp [Mode.chars, pending?, Token.chars, Token.text]

theorem Mode.chars_plainStep {m : Mode} {c : Char} {s : Scan} (h : m.plainStep c = some s)
    (hc : c ≠ ' ') : Token.chars s.1 ++ s.2.chars = m.chars ++ [c] := by
  cases m with
  | start => exact chars_begin? h hc
  | word cs =>
      rw [plainStep] at h
      split at h
      · cases h
        simp [Mode.chars, pending?, Token.chars, Token.text]
      · obtain ⟨t, ht, rfl⟩ := Option.map_eq_some_iff.mp h
        rw [← chars_begin? ht hc]
        simp [Mode.chars, pending?, Token.chars, Token.text]
  | operator c₁ =>
      rw [plainStep] at h
      split at h
      · cases h
      · split at h
        · cases h
          simp [Mode.chars, pending?, Token.chars, Token.text]
        · obtain ⟨t, ht, rfl⟩ := Option.map_eq_some_iff.mp h
          rw [← chars_begin? ht hc]
          simp [Mode.chars, pending?, Token.chars, Token.text]
  | mark | quoted | escaped | closed => cases h

theorem Scan.chars_through {m : Mode} {cs : List Char} {s : Scan}
    (h : through Mode.plainStep m cs = some s) (hc : ∀ c ∈ cs, c ≠ ' ') :
    Token.chars s.1 ++ s.2.chars = m.chars ++ cs := by
  induction cs generalizing m s with
  | nil =>
      cases h
      exact (List.append_nil _).symm
  | cons c cs ih =>
      rw [List.forall_mem_cons] at hc
      obtain ⟨t, ht, h⟩ := Option.bind_eq_some_iff.mp h
      obtain ⟨u, hu, rfl⟩ := Option.map_eq_some_iff.mp h
      rw [Token.chars_append, List.append_assoc, ih hu hc.2, ← List.append_assoc,
        Mode.chars_plainStep ht hc.1, List.append_assoc]
      rfl

/-- Plain text without spaces is what its tokens put together. -/
theorem Text.chars_tokens {s : String} (h : isPlain s = true) (hc : ∀ c ∈ s.toList, c ≠ ' ') :
    Token.chars (tokens s) = s.toList := by
  obtain ⟨⟨ts, m⟩, hs⟩ := Option.isSome_iff_exists.mp h
  have hm := Scan.chars_through hs hc
  rw [tokens, hs, Token.chars_append]
  exact hm

/-! ## Names of functions -/

/-- Whether a token may stand in the name of a function: a point, or a word that is not one of
those that put predicates together. -/
def Token.isCallee : Token → Bool
  | .word w => ["AND", "OR", "NOT"].all fun k => !isKeyword k (.word w)
  | .symbol s => s = "."
  | _ => false

/-- Whether a text is the name of a function: letters, digits, underscores and points, and no word
that puts predicates together. -/
def Text.isCallable (s : String) : Bool :=
  !s.isEmpty && s.toList.all isNumeralChar && (tokens s).all Token.isCallee

namespace Part

variable {d : Dialect} {vs : List Value}

theorem call?_append {ts : List Token} (h : ∀ t ∈ ts, t.isCallee = true) (es : List Expr)
    (js : List Part) :
    call? (ts.map .token ++ .group es :: js) = some (String.ofList (Token.chars ts), es, js) := by
  induction ts with
  | nil => rfl
  | cons t ts ih =>
      rw [List.forall_mem_cons] at h
      rw [List.map_cons, List.cons_append]
      cases t with
      | word w =>
          rw [call?, ih h.2]
          simp [Token.chars, Token.text]
      | symbol s =>
          have hs : s = "." := of_decide_eq_true h.1
          subst hs
          rw [call?, ih h.2]
          simp [Token.chars, Token.text]
      | name | string | bytes | placeholder => cases h.1

theorem isBreak_of_isCallee {t : Token} (h : t.isCallee = true) (l : Level) :
    isBreak l (.token t) = false := by
  cases t with
  | word w =>
      simp only [Token.isCallee, List.all_cons, List.all_nil, Bool.and_true, Bool.and_eq_true,
        Bool.not_eq_true'] at h
      cases l <;> simp [isBreak, isComma, isConnective, any, h.1, h.2.1]
  | symbol s =>
      have hs : s = "." := of_decide_eq_true h
      subst hs
      cases l <;> decide
  | name | string | bytes | placeholder => cases h

theorem isNot_of_isCallee {t : Token} (h : t.isCallee = true) : isNot (.token t) = false := by
  cases t with
  | word w =>
      simp only [Token.isCallee, List.all_cons, List.all_nil, Bool.and_true, Bool.and_eq_true,
        Bool.not_eq_true'] at h
      exact h.2.2
  | symbol s => rfl
  | name | string | bytes | placeholder => cases h

/-! ## Operands -/

theorem spells_call {s : String} (h : Text.isCallable s = true) (es : List Expr) :
    Spells d vs .operand ((Text.tokens s).map .token ++ [.group es]) (.call s es) := by
  simp only [Text.isCallable, Bool.and_eq_true, List.all_eq_true] at h
  obtain ⟨⟨he, hn⟩, ht⟩ := h
  have hs : Text.IsNumeral s := ⟨[], s.toList, rfl, .inl rfl, hn⟩
  have hc : String.ofList (Token.chars (Text.tokens s)) = s := by
    rw [Text.chars_tokens (Text.isPlain_of_isNumeral hs), String.ofList_toList]
    rintro c hc rfl
    exact absurd (hn _ hc) (by decide)
  refine ⟨?_, ?_, by simp, fun js _ => ?_⟩
  · refine List.forall_mem_append.mpr ⟨?_, by simp [isBreak, isComma, isConnective, any]⟩
    intro i hi
    obtain ⟨t, hmem, rfl⟩ := List.mem_map.mp hi
    exact isBreak_of_isCallee (ht t hmem) _
  · cases hts : Text.tokens s with
    | nil => rfl
    | cons t ts => exact isNot_of_isCallee (ht t (hts ▸ List.mem_cons_self))
  · have hcall := call?_append ht es js
    rw [hc] at hcall
    rw [List.append_assoc, List.singleton_append]
    cases hts : Text.tokens s with
    | nil =>
        rw [hts] at hc
        simp [← hc, Token.chars] at he
    | cons t ts =>
        rw [hts] at ht hcall
        have htt := ht t List.mem_cons_self
        rw [List.map_cons, List.cons_append] at hcall ⊢
        cases t with
        | word w => simp [operand?, hcall]
        | symbol u =>
            have hu : u = "." := of_decide_eq_true htt
            subst hu
            simp [operand?, hcall]
        | name | string | bytes | placeholder => cases htt

/-- Names with a point between each two. -/
def points (ss : List String) : List Part :=
  ss.flatMap fun s => [.token (.symbol "."), .token (.name s)]

theorem path_points (ss : List String) {js : List Part}
    (h : begins (any (· = .symbol ".")) js = false) : path (points ss ++ js) = (ss, js) := by
  induction ss with
  | nil =>
      show path js = ([], js)
      unfold path
      split
      · cases h
      · rfl
  | cons s ss ih =>
      show path (.token (.symbol ".") :: .token (.name s) :: (points ss ++ js)) = _
      rw [path, ih]

theorem spells_column (s : String) (ss : List String) :
    Spells d vs .operand (.token (.name s) :: points ss) (.column (s :: ss)) := by
  refine ⟨List.forall_mem_cons.mpr ⟨rfl, ?_⟩, rfl, List.cons_ne_nil _ _, fun js hj => ?_⟩
  · intro i hi
    obtain ⟨u, -, hi⟩ := List.mem_flatMap.mp hi
    simp only [List.mem_cons, List.not_mem_nil, or_false] at hi
    rcases hi with rfl | rfl <;> rfl
  · rw [List.cons_append, operand?, path_points ss hj]

theorem parameter?_text (vs : List Value) (k : Nat) :
    parameter? vs (Engine.postgres.dialect.placeholder.text (k + 1)) = vs[k]? := by
  have ht : (Engine.postgres.dialect.placeholder.text (k + 1)).toList =
      '$' :: Nat.toDigits 10 (k + 1) := by
    show ("$" ++ toString (k + 1)).toList = _
    rw [String.toList_append, show (toString (k + 1)).toList = _ from Nat.toList_repr]
    rfl
  rw [parameter?, ht, List.drop_succ_cons, List.drop_zero, Nat.ofDigitChars_ten_toDigits]

theorem spells_value {k : Nat} {v : Value} (h : vs[k]? = some v) :
    Spells d vs .operand [.token (.placeholder (Engine.postgres.dialect.placeholder.text (k + 1)))]
      (.value v) := by
  refine ⟨by simp [isBreak, isComma, isConnective, any, Token.isKeyword], rfl, by simp,
    fun js _ => ?_⟩
  rw [List.singleton_append, operand?, parameter?_text, h]
  rfl

/-! ## Operators -/

/-- The parts of a binary operator. -/
def spelled (op : Operator) : List Part :=
  (Text.tokens (Engine.postgres.dialect.operator op)).map .token

theorem operator?_append {op : Operator} (hop : op.isUnary = false) {js : List Part}
    (hj : begins isNot js = false) :
    operator? Engine.postgres.dialect (spelled op ++ js) = some (op, js) := by
  cases op
  case is =>
    cases js with
    | nil => rfl
    | cons j js =>
        cases j with
        | group es => rfl
        | token u =>
            -- Only a NOT behind it would make this the start of another operator.
            have hu : u.isKeyword "NOT" = false := hj
            have hb : behind? (Text.tokens (Engine.postgres.dialect.operator .isNot))
                (spelled .is ++ .token u :: js) = none := by
              show (if u.isKeyword "NOT" = true then some js else none) = none
              rw [hu]
              rfl
            rw [operator?, operators, List.findSome?_cons, hb]
            rfl
  case not | «exists» | notExists | neg => cases hop
  all_goals rfl

theorem spelled_ne_nil (op : Operator) : spelled op ≠ [] := by
  cases op <;> exact List.cons_ne_nil _ _

theorem isBreak_spelled (op : Operator) : ∀ i ∈ spelled op, i.isBreak .binary = false := by
  have ht : (Text.tokens (Engine.postgres.dialect.operator op)).all
      (fun t => !isBreak .binary (.token t)) = true := by
    cases op <;> rfl
  intro i hi
  obtain ⟨t, hmem, rfl⟩ := List.mem_map.mp hi
  simpa using List.all_eq_true.mp ht t hmem

theorem Spells.binary {op : Operator} (hop : op.isUnary = false) {is js : List Part} {e f : Expr}
    (h : Spells Engine.postgres.dialect vs .operand is e)
    (h' : Spells Engine.postgres.dialect vs .operand js f) :
    Spells Engine.postgres.dialect vs .binary (is ++ (spelled op ++ js)) (.binary e op f) := by
  obtain ⟨hw, hn, hne, hr⟩ := h
  obtain ⟨hw', hn', -, hr'⟩ := h'
  have hs : begins (any (· = .symbol ".")) (spelled op ++ js) = false := by
    cases op <;> rfl
  have hl := hr _ hs
  have hf := hr' [] rfl
  rw [List.append_nil] at hf
  refine ⟨?_, ?_, ?_⟩
  · simp only [List.forall_mem_append]
    exact ⟨hw, isBreak_spelled op, hw'⟩
  · obtain ⟨i, is, rfl⟩ := List.exists_cons_of_ne_nil hne
    exact hn
  · rw [readBinary, hl]
    simp [spelled_ne_nil, operator?_append hop hn', hf]

end Part

end SqlTree
