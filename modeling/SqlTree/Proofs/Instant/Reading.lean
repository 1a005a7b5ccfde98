import Mathlib
import SqlTree.Instant.Reader
import SqlTree.Proofs.Instant.Calendar

/-! # Reading back instants

An instant that the calendar and the clock have is read back from its written form. Each number is
read from its digits, whatever stands behind those that the reader looks for. -/

namespace SqlTree.Instant

/-- Whether the calendar and the clock have an instant. A leap second follows the last second of a
minute. -/
def isValid (t : Instant) : Bool :=
  firstDay ≤ t.day && t.day ≤ lastDay && t.second < 86400 && t.nano < 2000000000 &&
    (t.nano < 1000000000 || t.second % 60 = 59)

/-! ## Digits -/

/-- Digits that spell a number. -/
structure IsNumber (ds : List Char) (n : Nat) : Prop where
  isDigit : ∀ c ∈ ds, c.isDigit = true
  value : Nat.ofDigitChars 10 ds 0 = n
  ne_nil : ds ≠ []

theorem isNumber_twoDigits {n : Nat} (h : n < 100) : IsNumber (twoDigits n) n := by
  have hvalue : ∀ d < 10, (Nat.digitChar d).toNat - '0'.toNat = d := by decide
  refine ⟨fun c hc => ?_, ?_, nofun⟩
  · obtain rfl | rfl : c = Nat.digitChar (n / 10 % 10) ∨ c = Nat.digitChar (n % 10) := by
      simpa [twoDigits] using hc
    all_goals exact Nat.isDigit_digitChar.trans (decide_eq_true (Nat.mod_lt _ (by decide)))
  · rw [twoDigits, Nat.ofDigitChars_cons, Nat.ofDigitChars_cons, Nat.ofDigitChars_nil,
      hvalue _ (Nat.mod_lt _ (by decide)), hvalue _ (Nat.mod_lt _ (by decide))]
    omega

theorem isNumber_padded (width n : Nat) : IsNumber (padded width n) n := by
  refine ⟨fun c hc => ?_, ?_, ?_⟩
  · obtain hc | hc := List.mem_append.mp hc
    · rw [List.eq_of_mem_replicate hc]
      rfl
    · exact Nat.isDigit_of_mem_toDigits (by decide) (by decide) hc
  · rw [padded, Nat.ofDigitChars_append, Nat.ofDigitChars_replicate_zero, Nat.mul_zero]
    exact Nat.ofDigitChars_ten_toDigits
  · exact List.append_ne_nil_of_right_ne_nil _ Nat.toDigits_ne_nil

theorem length_padded {width n : Nat} (hw : 0 < width) (h : n < 10 ^ width) :
    (padded width n).length = width := by
  have hle : (Nat.toDigits 10 n).length ≤ width :=
    (Nat.length_toDigits_le_iff (by decide) hw).mpr h
  rw [padded, List.length_append, List.length_replicate]
  omega

namespace Reader

variable {ds rest : List Char} {n : Nat}

theorem bind_some {α β : Type} {x : Option α} {a : α} {f : α → Option β} (h : x = some a) :
    (x >>= f) = f a := by
  rw [h]
  rfl

theorem isBlank_of_isDigit {c : Char} (h : c.isDigit = true) : Text.isBlank c = false := by
  have hc : 48 ≤ c.toNat ∧ c.toNat ≤ 57 := by
    simpa [Char.isDigit, UInt32.le_iff_toNat_le] using h
  simp only [Text.isBlank, Bool.or_eq_false_iff, Bool.and_eq_false_iff, decide_eq_false_iff_not,
    beq_eq_false_iff_ne]
  omega

theorem isDigit_of_append_eq_cons {c : Char} {cs : List Char} (hds : IsNumber ds n)
    (h : ds ++ rest = c :: cs) : c.isDigit = true := by
  cases ds with
  | nil => exact absurd rfl hds.ne_nil
  | cons d ds =>
      obtain ⟨rfl, -⟩ := List.cons.inj h
      exact hds.isDigit d (List.mem_cons_self ..)

theorem trimStart_isNumber (hds : IsNumber ds n) (rest : List Char) :
    Text.trimStart (ds ++ rest) = ds ++ rest := by
  cases h : ds ++ rest with
  | nil => rfl
  | cons c cs =>
      have hc := isBlank_of_isDigit (isDigit_of_append_eq_cons hds h)
      rw [Text.trimStart, List.dropWhile_cons_of_neg (by simp [hc])]

/-- As many digits are read as the width allows. -/
theorem number_of_width {width : Nat} (hds : IsNumber ds n) (hwidth : ds.length = width)
    (rest : List Char) : number (some width) (ds ++ rest) = some (n, rest) := by
  have htake : ((ds ++ rest).takeWhile Char.isDigit).take width = ds := by
    rw [List.takeWhile_append_of_pos hds.isDigit, ← hwidth, List.take_left]
  simp only [number, htake, List.isEmpty_eq_false_iff.mpr hds.ne_nil, Bool.false_eq_true, if_false,
    List.drop_left]
  exact congrArg (fun n => some (n, rest)) hds.value

/-- All digits are read if the width allows them and no other one follows. -/
theorem number_of_rest {width : Option Nat} (hds : IsNumber ds n)
    (hwidth : ∀ w ∈ width, ds.length ≤ w) (hrest : ∀ c ∈ rest.head?, c.isDigit = false) :
    number width (ds ++ rest) = some (n, rest) := by
  have hall : (ds ++ rest).takeWhile Char.isDigit = ds := by
    rw [List.takeWhile_append_of_pos hds.isDigit]
    cases rest with
    | nil => exact List.append_nil _
    | cons c rest => rw [List.takeWhile_cons_of_neg (by simp [hrest c rfl]), List.append_nil]
  have hread : number none (ds ++ rest) = some (n, rest) := by
    simp only [number, hall, List.isEmpty_eq_false_iff.mpr hds.ne_nil, Bool.false_eq_true,
      if_false, List.drop_left]
    exact congrArg (fun n => some (n, rest)) hds.value
  cases width with
  | none => exact hread
  | some w =>
      rw [← hread, number, number, hall]
      simp only [List.take_of_length_le (hwidth w rfl)]

/-- A number of two digits is read back within its bounds. -/
theorem field_twoDigits {low high : Nat} (hlow : low ≤ n) (hhigh : n ≤ high) (h : n < 100)
    (rest : List Char) : field low high (Instant.twoDigits n ++ rest) = some (n, rest) := by
  have hds := isNumber_twoDigits h
  have hread : number (some 2) (Instant.twoDigits n ++ rest) = some (n, rest) :=
    number_of_width hds rfl rest
  rw [field, trimStart_isNumber hds, hread]
  exact if_pos ⟨hlow, hhigh⟩

/-- A year is read back, with or without a sign. -/
theorem year_yearText (y : Int) {rest : List Char} (hrest : ∀ c ∈ rest.head?, c.isDigit = false) :
    year (yearText y ++ rest) = some (y, rest) := by
  rw [yearText]
  by_cases hplain : 0 ≤ y ∧ y ≤ 9999
  · have hds := isNumber_padded 4 y.toNat
    have hlen : (padded 4 y.toNat).length = 4 := length_padded (by decide) (by omega)
    have hread : number (some 4) (padded 4 y.toNat ++ rest) = some (y.toNat, rest) :=
      number_of_width hds hlen rest
    rw [if_pos hplain, year, trimStart_isNumber hds]
    split
    · next h => exact absurd (isDigit_of_append_eq_cons hds h) (by decide)
    · next h => exact absurd (isDigit_of_append_eq_cons hds h) (by decide)
    · rw [hread]
      exact congrArg (fun y => some (y, rest)) (Int.toNat_of_nonneg hplain.1)
  · have hread : number none (padded 4 y.natAbs ++ rest) = some (y.natAbs, rest) :=
      number_of_rest (isNumber_padded 4 _) nofun hrest
    rw [if_neg hplain]
    by_cases hneg : y < 0
    · have habs : -(y.natAbs : Int) = y := by omega
      rw [if_pos hneg]
      change (number none (padded 4 y.natAbs ++ rest)).map _ = _
      rw [hread]
      exact congrArg (fun y => some (y, rest)) habs
    · have habs : (y.natAbs : Int) = y := by omega
      rw [if_neg hneg]
      change (number none (padded 4 y.natAbs ++ rest)).map _ = _
      rw [hread]
      exact congrArg (fun y => some (y, rest)) habs

/-- A fraction is read back in front of the zone from the digits it needs. -/
theorem fraction_padded {nano k m : Nat} (hk : 0 < k ∧ k ≤ 9) (hm : m < 10 ^ k)
    (hnano : m * 10 ^ (9 - k) = nano) :
    fraction ('.' :: padded k m ++ ['Z']) = some (nano, ['Z']) := by
  have hlen := length_padded hk.1 hm
  have hread : number (some 9) (padded k m ++ ['Z']) = some (m, ['Z']) :=
    number_of_rest (isNumber_padded k m) (by simp [hlen, hk.2]) fun c hc => by cases hc; rfl
  have hcount : (padded k m ++ ['Z']).length - ['Z'].length = k := by
    rw [List.length_append, hlen]
    omega
  simp only [List.cons_append, fraction, hread, Option.bind_eq_bind, Option.bind_some, hcount]
  exact congrArg (fun n => some (n, ['Z'])) hnano

/-- A fraction of a second is read back in front of the zone. -/
theorem fraction_fractionText {nano : Nat} (h : nano < 1000000000) :
    fraction (fractionText nano ++ ['Z']) = some (nano, ['Z']) := by
  rw [fractionText]
  split_ifs with hnone hmilli hmicro
  · subst nano
    rfl
  · exact fraction_padded (by decide) (by omega)
      (Nat.div_mul_cancel (Nat.dvd_of_mod_eq_zero hmilli))
  · exact fraction_padded (by decide) (by omega)
      (Nat.div_mul_cancel (Nat.dvd_of_mod_eq_zero hmicro))
  · exact fraction_padded (by decide) h (Nat.mul_one nano)

end Reader

/-- The date and the time of day are read back from the form they are written in. -/
theorem ofString?_clock {d : Date} {hour minute second nano : Nat} (hmonth : 1 ≤ d.month)
    (hmonths : d.month ≤ 12) (hday : 1 ≤ d.day) (hdays : d.day ≤ 31) (hhour : hour ≤ 23)
    (hminute : minute ≤ 59) (hsecond : second ≤ 60) (hnano : nano < 1000000000) :
    ofString? (String.ofList (yearText d.year ++ '-' :: twoDigits d.month ++
        '-' :: twoDigits d.day ++ 'T' :: twoDigits hour ++ ':' :: twoDigits minute ++
        ':' :: twoDigits second ++ fractionText nano) ++ "Z") =
      ofLocal? d hour minute second nano 0 := by
  have hdash (cs : List Char) : Reader.separator '-' ('-' :: cs) = some cs := rfl
  have hcolon (cs : List Char) : Reader.separator ':' (':' :: cs) = some cs := rfl
  have hzone : "Z".toList = ['Z'] := rfl
  rw [ofString?]
  simp only [String.toList_append, String.toList_ofList, List.append_assoc, List.cons_append, hzone]
  rw [Reader.bind_some (Reader.year_yearText _ (by simp)), Reader.bind_some (hdash _),
    Reader.bind_some (Reader.field_twoDigits hmonth hmonths (by omega) _),
    Reader.bind_some (hdash _),
    Reader.bind_some (Reader.field_twoDigits hday hdays (by omega) _)]
  dsimp only
  rw [if_pos (Or.inl rfl), Reader.bind_some (f := fun rest => Reader.field 0 23 rest >>= _) rfl,
    Reader.bind_some (Reader.field_twoDigits (Nat.zero_le _) hhour (by omega) _),
    Reader.bind_some (hcolon _),
    Reader.bind_some (Reader.field_twoDigits (Nat.zero_le _) hminute (by omega) _),
    Reader.bind_some (hcolon _),
    Reader.bind_some (Reader.field_twoDigits (Nat.zero_le _) hsecond (by omega) _),
    Reader.bind_some (Reader.fraction_fractionText hnano)]
  rfl

/-- The clock shows the second of a day, with a second sixty for a leap second. -/
theorem ofLocal?_ofDay {t : Instant} (h : t.isValid = true) :
    ofLocal? (Date.ofDay t.day) (t.second / 3600) (t.second / 60 % 60)
      (t.second % 60 + if 1000000000 ≤ t.nano then 1 else 0)
      (if 1000000000 ≤ t.nano then t.nano - 1000000000 else t.nano) 0 = some t := by
  simp only [isValid, Bool.and_eq_true, Bool.or_eq_true, decide_eq_true_eq] at h
  obtain ⟨⟨⟨⟨hfirst, hlast⟩, hsecond⟩, hnano⟩, hleap⟩ := h
  have htotal : t.day * 86400 + (((t.second / 3600 : Nat) : Int) * 3600 +
      ((t.second / 60 % 60 : Nat) : Int) * 60 +
      (min (t.second % 60 + if 1000000000 ≤ t.nano then 1 else 0) 59 : Nat)) - 0 =
      t.day * 86400 + t.second := by
    split <;> omega
  have hday : (t.day * 86400 + (t.second : Int)) / 86400 = t.day := by omega
  have hclock : ((t.day * 86400 + (t.second : Int)) % 86400).toNat = t.second := by omega
  simp only [ofLocal?, Date.toDay_ofDay, Date.isValid_ofDay, htotal, hday, hclock, hfirst, hlast,
    and_self, if_true]
  by_cases hlong : 1000000000 ≤ t.nano
  · have hsixty : t.second % 60 + 1 = 60 := by omega
    simp only [if_pos hlong, if_pos hsixty, Nat.sub_add_cancel hlong]
  · have hshort : t.second % 60 + 0 ≠ 60 := by omega
    simp only [if_neg hlong, if_neg hshort]

/-- An instant that the calendar and the clock have is read back from its written form. -/
theorem ofString?_text {t : Instant} (h : t.isValid = true) : ofString? (t.text "Z") = some t := by
  have hdate := Date.isValid_ofDay t.day
  have hlocal := ofLocal?_ofDay h
  simp only [Date.isValid, Bool.and_eq_true, decide_eq_true_eq] at hdate
  simp only [isValid, Bool.and_eq_true, Bool.or_eq_true, decide_eq_true_eq] at h
  obtain ⟨⟨⟨hmonth, hmonths⟩, hday⟩, hdays⟩ := hdate
  rw [← hlocal, text]
  refine ofString?_clock hmonth hmonths hday (Nat.le_trans hdays (Date.daysIn_le ..)) ?_ ?_ ?_ ?_
  · omega
  · omega
  · split <;> omega
  · split <;> omega

end SqlTree.Instant
