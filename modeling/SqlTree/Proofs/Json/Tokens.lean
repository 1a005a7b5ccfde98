import SqlTree.Json.Printer
import SqlTree.Json.Reader
import SqlTree.Proofs.Form.Values

/-! # Reading back texts and whole numbers

A text in quotes is read back character by character, whatever stands behind the closing quote. A
whole number of at most 64 bits is read back if what stands behind it does not go on with a
number. -/

namespace SqlTree.Json.Reader

theorem bind_ok {α β : Type} {x : Reader α} {f : α → Reader β} {cs rest : List Char} {a : α}
    (h : x cs = .ok (a, rest)) : (x >>= f) cs = f a rest := by
  change (x cs).bind _ = _
  rw [h]
  rfl

theorem map_ok {α β : Type} (f : α → β) {x : Reader α} {cs rest : List Char} {a : α}
    (h : x cs = .ok (a, rest)) : (f <$> x) cs = .ok (f a, rest) :=
  bind_ok (f := fun a => pure (f a)) h

/-! ## Texts -/

theorem codeUnit_lowerHex (a b : Nat) (rest : List Char) :
    codeUnit ('0' :: '0' :: Text.lowerHex a :: Text.lowerHex b :: rest) =
      .ok (16 * (a % 16) + b % 16, rest) := by
  have hn : Text.hexNumber? ['0', '0', Text.lowerHex a, Text.lowerHex b] 0 =
      some (16 * (a % 16) + b % 16) := by
    have h0 : Text.hexValue? '0' = some 0 := rfl
    simp [Text.hexNumber?, h0, Text.hexValue?_lowerHex]
  rw [codeUnit, bind_ok (x := get) rfl]
  simp [hn]
  rfl

theorem escape_control {c : Char} (h : c.toNat < 0x20) (rest : List Char) :
    escape ('u' :: '0' :: '0' :: Text.lowerHex (c.toNat / 16) :: Text.lowerHex c.toNat :: rest) =
      .ok (c, rest) := by
  have hu : unicodeEscape ('0' :: '0' :: Text.lowerHex (c.toNat / 16) ::
      Text.lowerHex c.toNat :: rest) = .ok (c, rest) := by
    have hc : 16 * (c.toNat / 16 % 16) + c.toNat % 16 = c.toNat := by omega
    rw [unicodeEscape, bind_ok (codeUnit_lowerHex _ _ rest), hc, if_neg (by omega),
      if_neg (by omega), Char.ofNat_toNat]
    rfl
  exact hu

/-- A character in a text is read back from the way it is written there. -/
theorem stringBody_escaped (fuel : Nat) (done : List Char) (c : Char) (rest : List Char) :
    stringBody (fuel + 1) done (escaped c ++ rest) = stringBody fuel (c :: done) rest := by
  rw [escaped]
  split_ifs with hq hb h8 hf hn hr ht hc
  iterate 7
    · subst c
      rfl
  · change (escape >>= fun x => stringBody fuel (x :: done)) _ = _
    exact bind_ok (escape_control hc rest)
  · change stringBody (fuel + 1) done (c :: rest) = _
    rw [stringBody, bind_ok (x := get) rfl]
    simp only [if_neg hq, if_neg hc, if_neg hb]
    rfl

/-- A text is read back from what stands behind its opening quote. -/
theorem stringBody_quoted (cs done rest : List Char) {fuel : Nat} (h : cs.length < fuel) :
    stringBody fuel done (cs.flatMap escaped ++ '\x22' :: rest) =
      .ok (String.ofList (done.reverse ++ cs), rest) := by
  induction cs generalizing fuel done with
  | nil =>
      obtain ⟨fuel, rfl⟩ := Nat.exists_eq_succ_of_ne_zero (Nat.ne_of_gt h)
      rw [List.append_nil]
      rfl
  | cons c cs ih =>
      obtain ⟨fuel, rfl⟩ := Nat.exists_eq_succ_of_ne_zero (Nat.ne_zero_of_lt h)
      rw [List.flatMap_cons, List.append_assoc, stringBody_escaped,
        ih _ (Nat.lt_of_succ_lt_succ h), List.reverse_cons, List.append_assoc]
      rfl

theorem length_le_length_flatMap_escaped (cs : List Char) :
    cs.length ≤ (cs.flatMap escaped).length := by
  induction cs with
  | nil => exact Nat.le_refl 0
  | cons c cs ih =>
      have hc : 0 < (escaped c).length := by
        rw [escaped]
        split_ifs <;> exact Nat.succ_pos _
      rw [List.flatMap_cons, List.length_append, List.length_cons]
      omega

/-- A text is read back from its quotes. -/
theorem string_quotedText (s : String) :
    ∃ cs, (quotedText s).toList = '\x22' :: cs ∧ ∀ rest, string (cs ++ rest) = .ok (s, rest) := by
  refine ⟨s.toList.flatMap escaped ++ ['\x22'], ?_, fun rest => ?_⟩
  · simp [quotedText]
  · have hlen := length_le_length_flatMap_escaped s.toList
    have hfuel : s.toList.length <
        (s.toList.flatMap escaped ++ '\x22' :: rest).length + 1 := by
      rw [List.length_append]
      omega
    rw [string, bind_ok (x := get) rfl, List.append_assoc, List.singleton_append,
      stringBody_quoted _ _ _ hfuel, List.reverse_nil, List.nil_append, String.ofList_toList]

/-! ## Whole numbers -/

/-- What is left does not go on with a number. -/
def EndsNumber (rest : List Char) : Prop :=
  ∀ c ∈ rest.head?, c.isDigit = false ∧ c ≠ '.' ∧ c ≠ 'e' ∧ c ≠ 'E'

theorem fraction_of_endsNumber {rest : List Char} (h : EndsNumber rest) :
    fraction rest = .ok (none, rest) := by
  cases rest with
  | nil => rfl
  | cons c rest =>
      obtain ⟨-, hpoint, -, -⟩ := h c rfl
      rw [fraction, bind_ok (x := get) rfl]
      simp [hpoint]
      rfl

theorem exponent_of_endsNumber {rest : List Char} (h : EndsNumber rest) :
    exponent rest = .ok (none, rest) := by
  cases rest with
  | nil => rfl
  | cons c rest =>
      obtain ⟨-, -, he, hE⟩ := h c rfl
      rw [exponent, bind_ok (x := get) rfl]
      simp only [he, hE, or_self, if_false]
      rfl

theorem head?_toDigits {n : Nat} (h : 0 < n) : (Nat.toDigits 10 n).head? ≠ some '0' := by
  induction n using Nat.strongRecOn with
  | ind n ih =>
      by_cases hn : n < 10
      · have hdigit : ∀ d < 10, 0 < d → [Nat.digitChar d].head? ≠ some '0' := by decide
        rw [Nat.toDigits_of_lt_base hn]
        exact hdigit n hn h
      · rw [Nat.toDigits_of_base_le (by decide) (by omega), List.head?_append,
          Option.or_of_isSome (by simp [Nat.toDigits_ne_nil])]
        exact ih (n / 10) (by omega) (by omega)

theorem whole_toDigits (n : Nat) {rest : List Char} (h : EndsNumber rest) :
    whole (Nat.toDigits 10 n ++ rest) = .ok (Nat.toDigits 10 n, rest) := by
  have hdigit : ∀ c ∈ Nat.toDigits 10 n, c.isDigit = true := fun c hc =>
    Nat.isDigit_of_mem_toDigits (by decide) (by decide) hc
  have htake : rest.takeWhile Char.isDigit = [] := by
    cases rest with
    | nil => rfl
    | cons c rest => simp [(h c rfl).1]
  have hdrop : rest.dropWhile Char.isDigit = rest := by
    cases rest with
    | nil => rfl
    | cons c rest => simp [(h c rfl).1]
  have hdigits : digits (Nat.toDigits 10 n ++ rest) = .ok (Nat.toDigits 10 n, rest) := by
    rw [digits, bind_ok (x := get) rfl, bind_ok (x := set _) rfl,
      List.takeWhile_append_of_pos hdigit, List.dropWhile_append_of_pos hdigit, htake, hdrop,
      List.append_nil]
    cases hd : Nat.toDigits 10 n with
    | nil => exact absurd hd Nat.toDigits_ne_nil
    | cons d ds => rfl
  have hzero : ¬ (1 < (Nat.toDigits 10 n).length ∧ (Nat.toDigits 10 n).head? = some '0') := by
    rintro ⟨hlen, hhead⟩
    refine head?_toDigits (Nat.pos_of_ne_zero ?_) hhead
    rintro rfl
    exact absurd hlen (by decide)
  rw [whole, bind_ok (x := get) rfl, bind_ok hdigits, if_neg hzero]
  rfl

theorem le_ofDigitChars (cs : List Char) (n : Nat) : n ≤ Nat.ofDigitChars 10 cs n := by
  induction cs generalizing n with
  | nil => exact Nat.le_refl n
  | cons c cs ih =>
      rw [Nat.ofDigitChars_cons]
      exact Nat.le_trans (by omega) (ih _)

/-- The digits of a number below the limit are added up to the number. -/
theorem foldl_wholeDigit {cs : List Char} {n : Nat} {e : Int}
    (h : Nat.ofDigitChars 10 cs n < UInt64.size) :
    cs.foldl (fun r d => r.wholeDigit (digit d)) (⟨n, e, false⟩ : Decimal.Reading) =
      ⟨Nat.ofDigitChars 10 cs n, e, false⟩ := by
  induction cs generalizing n with
  | nil => rfl
  | cons c cs ih =>
      rw [Nat.ofDigitChars_cons] at h ⊢
      have hd : n * 10 + digit c = 10 * n + (c.toNat - '0'.toNat) := by
        rw [Nat.mul_comm]
        rfl
      have hle := le_ofDigitChars cs (10 * n + (c.toNat - '0'.toNat))
      have hfits : (⟨n, e, false⟩ : Decimal.Reading).fits (digit c) = true := by
        simp only [Decimal.Reading.fits, hd, Bool.not_false, Bool.true_and, decide_eq_true_eq]
        omega
      rw [List.foldl_cons, Decimal.Reading.wholeDigit, if_pos hfits, ← ih h]
      simp only [hd]

/-- A whole number within 64 bits is read back from its digits; a minus sign needs one that is not
zero and is small enough. -/
theorem number_toDigits {n : Nat} {negative : Bool} (hn : n < UInt64.size)
    (hnegative : negative = true → 0 < n ∧ Int64.minValue.toInt ≤ -n) {rest : List Char}
    (h : EndsNumber rest) :
    number negative (Nat.toDigits 10 n ++ rest) =
      .ok (.int (if negative then -n else n), rest) := by
  have hdigits : Nat.ofDigitChars 10 (Nat.toDigits 10 n) 0 = n := Nat.ofDigitChars_ten_toDigits
  have hfold : (Nat.toDigits 10 n).foldl (fun r d => r.wholeDigit (digit d))
      Decimal.Reading.start = ⟨n, 0, false⟩ := by
    rw [Decimal.Reading.start, foldl_wholeDigit (hdigits.symm ▸ hn), hdigits]
  rw [number, bind_ok (whole_toDigits n h), bind_ok (fraction_of_endsNumber h),
    bind_ok (exponent_of_endsNumber h), hfold]
  cases negative with
  | false => rfl
  | true =>
      have hs := hnegative rfl
      have hneg : ¬ (n = 0 ∨ -(n : Int) < Int64.minValue.toInt) := by omega
      simp only [Option.isNone_none, Bool.not_false, Bool.not_true, and_self, if_true, if_neg hneg,
        Bool.false_eq_true, if_false]
      rfl

end SqlTree.Json.Reader
