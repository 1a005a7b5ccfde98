import SqlTree.Proofs.Lexical.Scanner

/-! # Texts that the scanner reads to their end

A text is read as tokens if these do not depend on the separator behind it, and it is complete if
they do not depend on anything behind it. Both are kept when texts are put together where a
separator divides them. -/

namespace SqlTree

/-! ## Steps through a text -/

namespace Scan

variable {step : Mode → Char → Option Scan}

@[simp] theorem through_nil (m : Mode) : through step m [] = some ([], m) := rfl

theorem through_cons (m : Mode) (c : Char) (cs : List Char) :
    through step m (c :: cs) =
      (step m c).bind fun s => (through step s.2 cs).map fun t => (s.1 ++ t.1, t.2) := rfl

theorem through_append (m : Mode) (cs ds : List Char) :
    through step m (cs ++ ds) =
      (through step m cs).bind fun s => (through step s.2 ds).map fun t => (s.1 ++ t.1, t.2) := by
  induction cs generalizing m with
  | nil => simp
  | cons c cs ih =>
      rw [List.cons_append, through_cons, through_cons]
      cases step m c with
      | none => rfl
      | some s =>
          rw [Option.bind_some, ih, Option.bind_some]
          cases through step s.2 cs with
          | none => rfl
          | some t => cases h : through step t.2 ds <;> simp [h]

end Scan

/-- A text that a separator opens, or no text. -/
def IsApart (cs : List Char) : Prop := ∀ c ∈ cs.head?, isSeparator c = true

/-- Whether a separator opens a text. -/
def Text.isApart (s : String) : Bool := s.toList.head?.any isSeparator

theorem Text.isApart_append {s : String} (h : isApart s = true) (cs : List Char) :
    IsApart (s.toList ++ cs) := by
  rw [isApart] at h
  cases hs : s.toList with
  | nil => simp [hs] at h
  | cons c ds =>
      rw [hs] at h
      rintro _ ⟨⟩
      exact h

/-! ## Dialects -/

/-- The quotes and marks of a dialect are no characters of plain text. -/
structure Dialect.IsLexical (d : Dialect) : Prop where
  opening : Mode.begin? d.quotes.opening = none
  opening_ne : d.quotes.opening ≠ '\x27'
  closing : Mode.begin? d.quotes.closing = none
  mark : ∀ c, d.startsMark c = true → Mode.begin? c = none

theorem Engine.isLexical (e : Engine) : e.dialect.IsLexical := by
  refine ⟨by cases e <;> decide, by cases e <;> decide, by cases e <;> decide, fun c hc => ?_⟩
  cases e <;> simp only [Dialect.startsMark, dialect] at hc
  case mysql | sqlite =>
    rw [of_decide_eq_true hc]
    decide
  case postgres =>
    have h : some '$' = some c := of_decide_eq_true hc
    rw [← Option.some.inj h]
    decide
  case sqlserver =>
    have h : some '@' = some c := of_decide_eq_true hc
    rw [← Option.some.inj h]
    decide

/-! ## Plain text -/

namespace Mode

theorem begin?_of_isSeparator {c : Char} (h : isSeparator c = true) :
    begin? c = some (separatorTokens c, .start) := by
  have hw : isWordChar c = false := by
    simp only [isSeparator, Bool.or_eq_true, decide_eq_true_eq] at h
    rcases h with (((rfl | rfl) | rfl) | rfl) | rfl <;> decide
  rw [begin?, hw, h]
  rfl

end Mode

theorem isCommentStart_of_isSeparator {c₁ c : Char} (hc : isSeparator c = true) :
    isCommentStart c₁ c = false := by
  simp only [isSeparator, Bool.or_eq_true, decide_eq_true_eq] at hc
  rcases hc with (((rfl | rfl) | rfl) | rfl) | rfl <;> simp [isCommentStart]

theorem isOperatorPair_of_isSeparator {c₁ c : Char} (hc : isSeparator c = true) :
    isOperatorPair c₁ c = false := by
  simp only [isSeparator, Bool.or_eq_true, decide_eq_true_eq] at hc
  rcases hc with (((rfl | rfl) | rfl) | rfl) | rfl <;> simp [isOperatorPair]

namespace Dialect

variable {d : Dialect} (hd : d.IsLexical)

include hd in
theorem beginToken_of_plain {c : Char} {s : Scan} (h : Mode.begin? c = some s) :
    d.beginToken c = s := by
  have ho : c ≠ d.quotes.opening := fun hc => by rw [hc, hd.opening] at h; cases h
  have hq : c ≠ '\x27' := fun hc => by rw [hc] at h; cases h
  have hm : d.startsMark c = false := by
    cases hc : d.startsMark c with
    | false => rfl
    | true => rw [hd.mark c hc] at h; cases h
  rw [beginToken, if_neg ho, if_neg hq, hm, h]
  rfl

include hd in
/-- The scanner reads plain text in the same way in all dialects. -/
theorem scanStep_of_plain {m : Mode} {c : Char} {s : Scan} (h : m.plainStep c = some s) :
    d.scanStep m c = some s := by
  cases m with
  | start => exact congrArg some (beginToken_of_plain hd h)
  | word cs =>
      rw [Mode.plainStep] at h
      rw [scanStep]
      split at h
      · rename_i hw
        rw [if_pos hw, h]
      · rename_i hw
        obtain ⟨t, ht, rfl⟩ := Option.map_eq_some_iff.mp h
        have hq : c ≠ '\x27' := fun hc => by rw [hc] at ht; cases ht
        rw [if_neg hw, if_neg hq, nextToken, beginToken_of_plain hd ht]
  | operator c₁ =>
      rw [Mode.plainStep] at h
      rw [scanStep]
      split at h
      · cases h
      · rename_i hc
        rw [if_neg hc]
        split at h
        · rename_i hp
          rw [if_pos hp, h]
        · rename_i hp
          obtain ⟨t, ht, rfl⟩ := Option.map_eq_some_iff.mp h
          rw [if_neg hp, nextToken, beginToken_of_plain hd ht]
  | mark | quoted | escaped | closed => cases h

include hd in
theorem through_of_plain {m : Mode} {cs : List Char} {s : Scan}
    (h : Scan.through Mode.plainStep m cs = some s) : Scan.through d.scanStep m cs = some s := by
  induction cs generalizing m s with
  | nil => exact h
  | cons c cs ih =>
      rw [Scan.through_cons] at h ⊢
      obtain ⟨t, ht, h⟩ := Option.bind_eq_some_iff.mp h
      obtain ⟨u, hu, rfl⟩ := Option.map_eq_some_iff.mp h
      rw [scanStep_of_plain hd ht, Option.bind_some, ih hu]
      rfl

include hd in
/-- A separator ends the token before it. -/
theorem scanStep_of_isSeparator {m : Mode} {ts : List Token} {c : Char}
    (hm : m.pending? = some ts) (hc : isSeparator c = true) :
    d.scanStep m c = some (ts ++ separatorTokens c, .start) := by
  have hb := Mode.begin?_of_isSeparator hc
  have ht := beginToken_of_plain hd hb
  have hw : isWordChar c = false := by
    cases hw : isWordChar c with
    | false => rfl
    | true => simp [Mode.begin?, hw] at hb
  cases m with
  | quoted | escaped => cases hm
  | start =>
      cases hm
      rw [scanStep, ht]
      rfl
  | word cs =>
      cases hm
      have hq : c ≠ '\x27' := fun h => by rw [h] at hb; cases hb
      rw [scanStep, hw, if_neg (by decide), if_neg hq, nextToken, ht]
      rfl
  | mark cs =>
      cases hm
      rw [scanStep, hw, if_neg (by decide), nextToken, ht]
      rfl
  | operator c₁ =>
      cases hm
      rw [scanStep, isCommentStart_of_isSeparator hc, isOperatorPair_of_isSeparator hc,
        if_neg (by decide), if_neg (by decide), nextToken, ht]
      rfl
  | closed q cs =>
      cases hm
      have hq : c ≠ d.closingQuote q := fun h => by
        cases q with
        | name => rw [h, closingQuote, hd.closing] at hb; cases hb
        | string | bytes => rw [h] at hb; cases hb
      rw [scanStep, if_neg hq, nextToken, ht]
      rfl

/-! ## Texts one after another -/

/-- A text that is read as the given tokens, whatever separator follows. -/
def Reads (d : Dialect) (cs : List Char) (ts : List Token) : Prop :=
  ∃ us m vs, Scan.through d.scanStep .start cs = some (us, m) ∧ m.pending? = some vs ∧
    ts = us ++ vs

/-- A text that is read as the given tokens, whatever follows. -/
def Completes (d : Dialect) (cs : List Char) (ts : List Token) : Prop :=
  Scan.through d.scanStep .start cs = some (ts, .start)

theorem Reads.scan?_eq {s : String} {ts : List Token} (h : d.Reads s.toList ts) :
    d.scan? s = some ts := by
  obtain ⟨us, m, vs, hs, hm, rfl⟩ := h
  simp [scan?, hs, hm]

theorem reads_nil : d.Reads [] [] := ⟨[], .start, [], rfl, rfl, rfl⟩

theorem Completes.through_append {cs ds : List Char} {ts : List Token} (h : d.Completes cs ts) :
    Scan.through d.scanStep .start (cs ++ ds) =
      (Scan.through d.scanStep .start ds).map fun s => (ts ++ s.1, s.2) := by
  rw [Scan.through_append, show Scan.through d.scanStep .start cs = _ from h, Option.bind_some]

theorem Completes.append_reads {cs ds : List Char} {ts us : List Token} (h : d.Completes cs ts)
    (hr : d.Reads ds us) : d.Reads (cs ++ ds) (ts ++ us) := by
  obtain ⟨vs, m, ws, hs, hm, rfl⟩ := hr
  exact ⟨ts ++ vs, m, ws, by rw [h.through_append, hs]; rfl, hm, (List.append_assoc ..).symm⟩

include hd in
theorem Reads.through_append {cs ds : List Char} {ts : List Token} {c : Char}
    (h : d.Reads cs ts) (hc : isSeparator c = true) :
    Scan.through d.scanStep .start (cs ++ c :: ds) =
      (Scan.through d.scanStep .start (c :: ds)).map fun s => (ts ++ s.1, s.2) := by
  obtain ⟨us, m, vs, hs, hm, rfl⟩ := h
  rw [Scan.through_append, hs, Option.bind_some, Scan.through_cons, Scan.through_cons,
    scanStep_of_isSeparator hd hm hc, scanStep_of_isSeparator hd (m := .start) rfl hc,
    Option.bind_some, Option.bind_some]
  cases Scan.through d.scanStep .start ds <;> simp

include hd in
theorem Reads.append {cs ds : List Char} {ts us : List Token} (h : d.Reads cs ts)
    (ha : IsApart ds) (hr : d.Reads ds us) : d.Reads (cs ++ ds) (ts ++ us) := by
  cases ds with
  | nil =>
      obtain ⟨vs, m, ws, hs, hm, rfl⟩ := hr
      cases hs
      cases hm
      simpa using h
  | cons c ds =>
      obtain ⟨vs, m, ws, hs, hm, rfl⟩ := hr
      refine ⟨ts ++ vs, m, ws, ?_, hm, (List.append_assoc ..).symm⟩
      rw [h.through_append hd (ha c rfl), hs]
      rfl

end Dialect

end SqlTree
