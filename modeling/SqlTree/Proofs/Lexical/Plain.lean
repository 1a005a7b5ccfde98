import SqlTree.Proofs.Lexical.Reading

/-! # Plain text

Words, separators and operators are read in the same way in all dialects, and as words and symbols
only. Whether a fixed text is plain can be computed, and numbers are. -/

namespace SqlTree

/-! ## Fixed texts -/

namespace Text

/-- What the scanner makes of a plain text. -/
def plainScan (s : String) : Option Scan := Scan.through Mode.plainStep .start s.toList

/-- Whether a text is plain. -/
def isPlain (s : String) : Bool := (plainScan s).isSome

/-- Whether a text is plain and no token is pending behind it. -/
def isComplete (s : String) : Bool :=
  match plainScan s with
  | some (_, .start) => true
  | _ => false

/-- The tokens of a plain text. -/
def tokens (s : String) : List Token :=
  match plainScan s with
  | some (ts, m) => ts ++ m.pending?.getD []
  | none => []

end Text

/-- Modes that plain text leads to. -/
def Mode.isPlain : Mode → Bool
  | .start | .word _ | .operator _ => true
  | _ => false

/-- Tokens of plain text. -/
def Token.isPlain : Token → Bool
  | .word _ | .symbol _ => true
  | _ => false

/-- What plain text leads to. -/
def Scan.IsPlain (s : Scan) : Prop := s.2.isPlain = true ∧ ∀ t ∈ s.1, t.isPlain = true

theorem Mode.pending?_of_isPlain {m : Mode} (h : m.isPlain = true) :
    ∃ ts, m.pending? = some ts ∧ ∀ t ∈ ts, t.isPlain = true := by
  cases m with
  | start => exact ⟨[], rfl, List.forall_mem_nil _⟩
  | word | operator => exact ⟨_, rfl, fun t ht => by rw [List.mem_singleton.mp ht]; rfl⟩
  | mark | quoted | escaped | closed => cases h

theorem Mode.isPlain_begin? {c : Char} {s : Scan} (h : begin? c = some s) : s.IsPlain := by
  rw [begin?] at h
  split at h
  · cases h
    exact ⟨rfl, List.forall_mem_nil _⟩
  · split at h
    · cases h
      refine ⟨rfl, fun t ht => ?_⟩
      simp only [separatorTokens] at ht
      split at ht
      · cases ht
      · rw [List.mem_singleton.mp ht]
        rfl
    · split at h <;> cases h
      exact ⟨rfl, List.forall_mem_nil _⟩

theorem Scan.IsPlain.cons {s : Scan} {t : Token} (h : s.IsPlain) (ht : t.isPlain = true) :
    Scan.IsPlain (t :: s.1, s.2) :=
  ⟨h.1, List.forall_mem_cons.mpr ⟨ht, h.2⟩⟩

theorem Mode.isPlain_plainStep {m : Mode} {c : Char} {s : Scan} (h : m.plainStep c = some s) :
    s.IsPlain := by
  cases m with
  | start => exact isPlain_begin? h
  | word cs =>
      rw [plainStep] at h
      split at h
      · cases h
        exact ⟨rfl, List.forall_mem_nil _⟩
      · obtain ⟨t, ht, rfl⟩ := Option.map_eq_some_iff.mp h
        exact (isPlain_begin? ht).cons rfl
  | operator c₁ =>
      rw [plainStep] at h
      split at h
      · cases h
      · split at h
        · cases h
          exact ⟨rfl, fun t ht => by rw [List.mem_singleton.mp ht]; rfl⟩
        · obtain ⟨t, ht, rfl⟩ := Option.map_eq_some_iff.mp h
          exact (isPlain_begin? ht).cons rfl
  | mark | quoted | escaped | closed => cases h

theorem Scan.isPlain_through {m : Mode} {cs : List Char} {s : Scan} (hm : m.isPlain = true)
    (h : through Mode.plainStep m cs = some s) : s.IsPlain := by
  induction cs generalizing m s with
  | nil =>
      cases h
      exact ⟨hm, List.forall_mem_nil _⟩
  | cons c cs ih =>
      obtain ⟨t, ht, h⟩ := Option.bind_eq_some_iff.mp h
      obtain ⟨u, hu, rfl⟩ := Option.map_eq_some_iff.mp h
      have hp := Mode.isPlain_plainStep ht
      have hq := ih hp.1 hu
      exact ⟨hq.1, List.forall_mem_append.mpr ⟨hp.2, hq.2⟩⟩

/-- The tokens of plain text are words and symbols. -/
theorem Text.isPlain_of_mem_tokens {s : String} {t : Token} (h : t ∈ tokens s) :
    t.isPlain = true := by
  rw [tokens] at h
  split at h
  · rename_i ts m hs
    have hp := Scan.isPlain_through (m := .start) rfl hs
    obtain ⟨us, hu, hus⟩ := Mode.pending?_of_isPlain hp.1
    rw [hu, Option.getD_some, List.mem_append] at h
    exact h.elim (hp.2 t) (hus t)
  · cases h

namespace Dialect

variable {d : Dialect} (hd : d.IsLexical)

include hd in
theorem reads_plain {s : String} (h : Text.isPlain s = true) :
    d.Reads s.toList (Text.tokens s) := by
  obtain ⟨⟨ts, m⟩, hs⟩ := Option.isSome_iff_exists.mp h
  obtain ⟨us, hu, -⟩ := Mode.pending?_of_isPlain (Scan.isPlain_through (m := .start) rfl hs).1
  refine ⟨ts, m, us, through_of_plain hd hs, hu, ?_⟩
  rw [Text.tokens, hs]
  simp only [hu, Option.getD_some]

include hd in
theorem completes_plain {s : String} (h : Text.isComplete s = true) :
    d.Completes s.toList (Text.tokens s) := by
  rw [Text.isComplete] at h
  split at h
  · rename_i ts hs
    rw [Completes, through_of_plain hd hs, Text.tokens, hs]
    simp [Mode.pending?]
  · cases h

end Dialect

/-! ## Numerals

Letters, digits, underscores and points behind an optional minus: no number, and no name of a
function, holds a parenthesis or starts a comment. -/

/-- The characters of a numeral behind its sign. -/
def isNumeralChar (c : Char) : Bool := isWordChar c || c = '.'

/-- Tokens other than quoted texts, marks and parentheses. -/
def Token.isInert : Token → Bool
  | .word _ => true
  | .symbol s => s ≠ "(" && s ≠ ")"
  | _ => false

/-- What a numeral leads to. -/
def Scan.IsInert (s : Scan) : Prop :=
  (∃ ts, s.2.pending? = some ts ∧ ∀ t ∈ ts, t.isInert = true) ∧
    s.2.isPlain = true ∧ ∀ t ∈ s.1, t.isInert = true

theorem Mode.begin?_of_isNumeralChar {c : Char} (h : isNumeralChar c = true) :
    begin? c = some ([], .word [c]) ∨ begin? c = some ([.symbol "."], .start) := by
  rw [isNumeralChar, Bool.or_eq_true, decide_eq_true_eq] at h
  rcases h with h | rfl
  · left
    rw [begin?, if_pos h]
  · right
    rfl

theorem Mode.isInert_plainStep {m : Mode} {c : Char} {ts : List Token} (hm : m.isPlain = true)
    (hp : m.pending? = some ts) (hi : ∀ t ∈ ts, t.isInert = true) (hc : isNumeralChar c = true) :
    ∃ s, m.plainStep c = some s ∧ s.IsInert := by
  have hb : ∃ s, begin? c = some s ∧ s.IsInert := by
    rcases begin?_of_isNumeralChar hc with h | h
    · exact ⟨_, h, ⟨_, rfl, by simp [Token.isInert]⟩, rfl, by simp⟩
    · exact ⟨_, h, ⟨_, rfl, by simp⟩, rfl, by decide⟩
  obtain ⟨s, hs, hsp, hsm, hst⟩ := hb
  cases m with
  | start => exact ⟨s, hs, hsp, hsm, hst⟩
  | word cs =>
      cases hp
      rw [plainStep]
      split
      · exact ⟨_, rfl, ⟨_, rfl, by simp [Token.isInert]⟩, rfl, by simp⟩
      · rw [hs]
        exact ⟨_, rfl, hsp, hsm, List.forall_mem_cons.mpr ⟨rfl, hst⟩⟩
  | operator c₁ =>
      cases hp
      have hne (x : Char) (hx : isNumeralChar x = false) : c ≠ x := fun h => by simp_all
      have hc₁ : isCommentStart c₁ c = false := by
        simp [isCommentStart, hne '-' (by decide), hne '*' (by decide)]
      have hc₂ : isOperatorPair c₁ c = false := by
        simp [isOperatorPair, hne '=' (by decide), hne '>' (by decide), hne '|' (by decide)]
      rw [plainStep, hc₁, hc₂, hs]
      exact ⟨_, rfl, hsp, hsm, List.forall_mem_cons.mpr ⟨hi _ (by simp), hst⟩⟩
  | mark | quoted | escaped | closed => cases hm

theorem Scan.isInert_through {m : Mode} {ts : List Token} {cs : List Char}
    (hm : m.isPlain = true) (hp : m.pending? = some ts) (hi : ∀ t ∈ ts, t.isInert = true)
    (h : ∀ c ∈ cs, isNumeralChar c = true) :
    ∃ s, through Mode.plainStep m cs = some s ∧ s.IsInert := by
  induction cs generalizing m ts with
  | nil => exact ⟨_, rfl, ⟨ts, hp, hi⟩, hm, List.forall_mem_nil _⟩
  | cons c cs ih =>
      rw [List.forall_mem_cons] at h
      obtain ⟨s, hs, ⟨us, hsp, hsi⟩, hsm, hst⟩ := Mode.isInert_plainStep hm hp hi h.1
      obtain ⟨u, hu, hup, hum, hut⟩ := ih hsm hsp hsi h.2
      refine ⟨(s.1 ++ u.1, u.2), ?_, hup, hum, List.forall_mem_append.mpr ⟨hst, hut⟩⟩
      rw [through_cons, hs, Option.bind_some, hu]
      rfl

namespace Text

/-- A text of letters, digits, underscores and points, perhaps behind a minus. -/
def IsNumeral (s : String) : Prop :=
  ∃ sign cs, s.toList = sign ++ cs ∧ (sign = [] ∨ sign = ['-']) ∧
    ∀ c ∈ cs, isNumeralChar c = true

theorem plainScan_of_isNumeral {s : String} (h : IsNumeral s) :
    ∃ t, plainScan s = some t ∧ t.IsInert := by
  obtain ⟨sign, cs, hs, rfl | rfl, hcs⟩ := h
  · rw [plainScan, hs]
    exact Scan.isInert_through (m := .start) rfl rfl (by simp) hcs
  · rw [plainScan, hs]
    obtain ⟨t, ht, hi⟩ := Scan.isInert_through (m := .operator '-') rfl rfl (by decide) hcs
    refine ⟨t, ?_, hi⟩
    rw [List.singleton_append, Scan.through_cons]
    show Option.map (fun u : Scan => ([] ++ u.1, u.2)) _ = some t
    rw [ht]
    rfl

theorem isPlain_of_isNumeral {s : String} (h : IsNumeral s) : isPlain s = true := by
  obtain ⟨t, ht, -⟩ := plainScan_of_isNumeral h
  rw [isPlain, ht]
  rfl

theorem isInert_of_mem_tokens {s : String} (h : IsNumeral s) {t : Token} (ht : t ∈ tokens s) :
    t.isInert = true := by
  obtain ⟨⟨us, m⟩, hs, ⟨vs, hp, hvs⟩, -, hus⟩ := plainScan_of_isNumeral h
  rw [tokens, hs] at ht
  simp only [hp, Option.getD_some, List.mem_append] at ht
  exact ht.elim (hus t) (hvs t)

/-! ### Numbers -/

theorem isNumeralChar_of_isDigit {c : Char} (h : c.isDigit = true) : isNumeralChar c = true := by
  simp [isNumeralChar, isWordChar, Char.isAlphanum, h]

theorem isNumeralChar_of_mem_toDigits {n : Nat} {c : Char} (h : c ∈ Nat.toDigits 10 n) :
    isNumeralChar c = true :=
  isNumeralChar_of_isDigit (Nat.isDigit_of_mem_toDigits (by decide) (by decide) h)

theorem isNumeral_nat (n : Nat) : IsNumeral (toString n) :=
  ⟨[], Nat.toDigits 10 n, by simp, .inl rfl, fun _ => isNumeralChar_of_mem_toDigits⟩

theorem isNumeral_int (n : Int) : IsNumeral (toString n) := by
  cases n with
  | ofNat n => exact isNumeral_nat n
  | negSucc n =>
      refine ⟨['-'], Nat.toDigits 10 (n + 1), ?_, .inr rfl, fun _ => isNumeralChar_of_mem_toDigits⟩
      rw [show toString (Int.negSucc n) = "-" ++ Nat.repr (n + 1) from rfl, String.toList_append,
        Nat.toList_repr]
      rfl

theorem isNumeralChar_of_mem_positionalText {ds : List Char} {e : Int} {c : Char}
    (hd : ∀ c ∈ ds, isNumeralChar c = true) (h : c ∈ Decimal.positionalText false ds e) :
    isNumeralChar c = true := by
  have h0 : isNumeralChar '0' = true := by decide
  have hp : isNumeralChar '.' = true := by decide
  rw [Decimal.positionalText] at h
  split at h
  · rcases List.mem_append.mp h with h | h
    · rcases List.mem_append.mp h with h | h
      · exact hd c h
      · rw [List.eq_of_mem_replicate h, h0]
    · simp at h
  · simp only at h
    split at h
    · rcases List.mem_append.mp h with h | h
      · exact hd c (List.mem_of_mem_take h)
      · rcases List.mem_cons.mp h with rfl | h
        · exact hp
        · exact hd c (List.mem_of_mem_drop h)
    · simp only [List.cons_append, List.mem_cons, List.mem_append] at h
      rcases h with rfl | rfl | h | h
      · exact h0
      · exact hp
      · rw [List.eq_of_mem_replicate h, h0]
      · exact hd c h

theorem isNumeralChar_of_mem_text {x : Decimal.Scaled} {c : Char}
    (h : c ∈ x.text Decimal.sqlStyle) : isNumeralChar c = true := by
  rw [Decimal.Scaled.text] at h
  refine isNumeralChar_of_mem_positionalText (fun c hc => ?_) h
  have hk := (List.dropWhile_suffix _).subset (List.mem_reverse.mp hc)
  exact isNumeralChar_of_mem_toDigits (List.mem_reverse.mp hk)

theorem isNumeral_float (x : Float) : IsNumeral (Decimal.floatText Decimal.sqlStyle x) := by
  have signed (b : Prop) [Decidable b] (cs : List Char) (h : ∀ c ∈ cs, isNumeralChar c = true) :
      IsNumeral ((if b then "-" else "") ++ String.ofList cs) := by
    refine ⟨if b then ['-'] else [], cs, ?_, ?_, h⟩
    · split <;> simp
    · split <;> simp
  rw [Decimal.floatText, Decimal.bitsText]
  split
  · exact ⟨[], "NaN".toList, rfl, .inl rfl, List.all_eq_true.mp rfl⟩
  · split
    · exact signed _ "inf".toList (List.all_eq_true.mp rfl)
    · split
      · exact signed _ _ fun c hc => isNumeralChar_of_mem_positionalText
          (List.all_eq_true.mp rfl) hc
      · exact signed _ _ fun c hc => isNumeralChar_of_mem_text hc

end Text

/-! ## A numeral in parentheses -/

theorem Mode.plainStep_of_isSeparator {m : Mode} {ts : List Token} {c : Char}
    (hm : m.isPlain = true) (hp : m.pending? = some ts) (hc : isSeparator c = true) :
    m.plainStep c = some (ts ++ separatorTokens c, .start) := by
  have hb := begin?_of_isSeparator hc
  cases m with
  | start =>
      cases hp
      exact hb
  | word cs =>
      cases hp
      have hw : isWordChar c = false := by
        cases hw : isWordChar c with
        | false => rfl
        | true => simp [begin?, hw] at hb
      rw [plainStep, hw, hb]
      rfl
  | operator c₁ =>
      cases hp
      rw [plainStep, isCommentStart_of_isSeparator hc, isOperatorPair_of_isSeparator hc, hb]
      rfl
  | mark | quoted | escaped | closed => cases hm

namespace Text

/-- A numeral in parentheses behind a word. -/
theorem plainScan_enclosed {s t : String} {ts : List Token} (hs : IsNumeral s)
    (ht : plainScan t = some (ts, .start)) :
    ∃ us, plainScan (t ++ s ++ ")") = some (ts ++ us ++ [Token.closing], .start) ∧
      ∀ u ∈ us, u.isInert = true := by
  obtain ⟨⟨us, m⟩, hu, ⟨vs, hp, hvs⟩, hm, hus⟩ := plainScan_of_isNumeral hs
  refine ⟨us ++ vs, ?_, List.forall_mem_append.mpr ⟨hus, hvs⟩⟩
  have hc : Scan.through Mode.plainStep m ")".toList = some (vs ++ [Token.closing], .start) := by
    have hstep := Mode.plainStep_of_isSeparator hm hp (c := ')') rfl
    show Scan.through Mode.plainStep m [')'] = _
    rw [Scan.through_cons, hstep]
    simp [separatorTokens, Token.closing]
  rw [plainScan] at ht hu ⊢
  rw [String.toList_append, String.toList_append, Scan.through_append, Scan.through_append, ht,
    Option.bind_some, hu, Option.map_some, Option.bind_some, hc]
  simp

end Text

end SqlTree
