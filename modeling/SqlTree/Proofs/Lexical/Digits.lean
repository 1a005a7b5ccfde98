import Mathlib.Algebra.Order.Group.Nat
import Mathlib.Algebra.Order.Ring.Nat
import Mathlib.Data.List.TakeWhile
import SqlTree.Decimal.Text

/-! # The digits of a floating-point number

A finite number is written with digits: the search for its shortest decimal never ends at zero, so
that some digit is left when the zeros at its end are taken away, and the point stands between
digits wherever it falls. -/

namespace SqlTree

/-! ## Digits -/

/-- One digit or more. -/
def Text.IsDigits (cs : List Char) : Prop := cs ≠ [] ∧ ∀ c ∈ cs, c.isDigit = true

/-- Digits, perhaps with a point and more digits behind them. -/
inductive Text.IsUnsigned : List Char → Prop
  | whole {cs : List Char} (h : IsDigits cs) : IsUnsigned cs
  | fraction {cs ds : List Char} (h : IsDigits cs) (h' : IsDigits ds) : IsUnsigned (cs ++ '.' :: ds)

namespace Text

theorem IsDigits.append {cs ds : List Char} (h : IsDigits cs) (hd : ∀ c ∈ ds, c.isDigit = true) :
    IsDigits (cs ++ ds) :=
  ⟨List.append_ne_nil_of_left_ne_nil h.1 ds, List.forall_mem_append.mpr ⟨h.2, hd⟩⟩

theorem IsDigits.behind {cs ds : List Char} (h : IsDigits ds) (hc : ∀ c ∈ cs, c.isDigit = true) :
    IsDigits (cs ++ ds) :=
  ⟨List.append_ne_nil_of_right_ne_nil cs h.1, List.forall_mem_append.mpr ⟨hc, h.2⟩⟩

theorem isDigit_replicate (n : Nat) : ∀ c ∈ List.replicate n '0', c.isDigit = true := by
  intro c hc
  rw [List.eq_of_mem_replicate hc]
  rfl

theorem isDigits_zero : IsDigits ['0'] := ⟨List.cons_ne_nil _ _, isDigit_replicate 1⟩

theorem isDigits_toDigits (n : Nat) : IsDigits (Nat.toDigits 10 n) :=
  ⟨Nat.toDigits_ne_nil, fun _ hc => Nat.isDigit_of_mem_toDigits (by decide) (by decide) hc⟩

end Text

namespace Decimal

open Text

/-! ## The search for the shortest decimal -/

theorem lt_pow_digitCount (n : Nat) : n < 10 ^ digitCount n :=
  (Nat.length_toDigits_le_iff (by decide) (List.length_pos_iff.mpr Nat.toDigits_ne_nil)).mp
    (Nat.le_refl _)

theorem pow_digitCount_le {n : Nat} (hn : 0 < n) : 10 ^ (digitCount n - 1) ≤ n := by
  by_cases h : digitCount n - 1 = 0
  · rw [h]
    exact hn
  · refine Nat.le_of_not_lt fun hlt => ?_
    have hle : digitCount n ≤ digitCount n - 1 :=
      (Nat.length_toDigits_le_iff (by decide) (by omega)).mpr hlt
    omega

namespace Interval

variable {i : Interval}

/-- Whether a number is at least the unit of a decimal grid. -/
def Reaches (i : Interval) (e : Int) : Prop :=
  i.denominator * 10 ^ e.toNat ≤ i.value * 10 ^ (-e).toNat

theorem Reaches.finer {e f : Int} (h : i.Reaches e) (hf : f ≤ e) : i.Reaches f := by
  have hup : i.denominator * 10 ^ f.toNat ≤ i.denominator * 10 ^ e.toNat :=
    Nat.mul_le_mul_left _ (Nat.pow_le_pow_right (by decide) (by omega))
  have hdown : i.value * 10 ^ (-e).toNat ≤ i.value * 10 ^ (-f).toNat :=
    Nat.mul_le_mul_left _ (Nat.pow_le_pow_right (by decide) (by omega))
  exact hup.trans (h.trans hdown)

/-- A number is at least the unit of the grid of its leading digit. -/
theorem reaches_leading (hv : 0 < i.value) (hd : 0 < i.denominator) : i.Reaches i.leading := by
  rw [Reaches, leading]
  split
  · -- The number is at least one.
    rename_i hle
    have hpos := Nat.div_pos hle hd
    have hpow := pow_digitCount_le hpos
    have hcount : 0 < digitCount (i.value / i.denominator) :=
      List.length_pos_iff.mpr Nat.toDigits_ne_nil
    have he : ((digitCount (i.value / i.denominator) : Int) - 1).toNat =
        digitCount (i.value / i.denominator) - 1 := by omega
    have hz : (-((digitCount (i.value / i.denominator) : Int) - 1)).toNat = 0 := by omega
    rw [he, hz, Nat.pow_zero, Nat.mul_one]
    calc i.denominator * 10 ^ (digitCount (i.value / i.denominator) - 1)
      _ ≤ i.denominator * (i.value / i.denominator) := Nat.mul_le_mul_left _ hpow
      _ ≤ i.value := Nat.mul_div_le i.value i.denominator
  · dsimp only
    generalize hn : digitCount (i.denominator / i.value) = n
    have hcount : 0 < n := hn ▸ List.length_pos_iff.mpr Nat.toDigits_ne_nil
    split
    · rename_i heq
      have he : (-((n : Int) - 1)).toNat = 0 := by omega
      have hz : (- -((n : Int) - 1)).toNat = n - 1 := by omega
      rw [he, hz, Nat.pow_zero, Nat.mul_one]
      exact heq.ge
    · have he : (-(n : Int)).toNat = 0 := by omega
      have hz : (- -(n : Int)).toNat = n := by omega
      rw [he, hz, Nat.pow_zero, Nat.mul_one, Nat.mul_comm]
      have hlt : i.denominator / i.value < 10 ^ n := hn ▸ lt_pow_digitCount _
      exact ((Nat.div_lt_iff_lt_mul hv).mp hlt).le

theorem not_contains_zero (hl : 0 < i.low) (e : Int) : i.contains 0 e = false := by
  have hs : 0 < i.low * 10 ^ (-e).toNat := Nat.mul_pos hl (Nat.pow_pos (by decide))
  simp only [contains, Nat.zero_mul]
  split
  · have hn : ¬ i.low * 10 ^ (-e).toNat ≤ 0 := by omega
    simp [hn]
  · simp

theorem onGrid_pos (hl : 0 < i.low) {tiesUp : Bool} {e : Int} {c : Nat}
    (h : i.onGrid tiesUp e = some c) : 0 < c := by
  rw [onGrid] at h
  dsimp only at h
  generalize i.value * Nat.pow 10 (-e).toNat / (i.denominator * Nat.pow 10 e.toNat) = below at h
  have hb (hc : i.contains below e = true) : 0 < below := by
    refine Nat.pos_of_ne_zero fun h0 => ?_
    rw [h0, not_contains_zero hl] at hc
    cases hc
  split at h
  · cases h
  · rename_i hc _
    cases h
    exact hb hc
  · cases h
    exact Nat.succ_pos below
  · rename_i hc _
    split at h
    · cases h
      exact hb hc
    · split at h
      · cases h
        exact Nat.succ_pos below
      · split at h
        · cases h
          exact Nat.succ_pos below
        · cases h
          exact hb hc

/-- The search ends at a positive coefficient, on a grid with a point in the interval as well as
on the last one. -/
theorem coefficient_search_pos (hl : 0 < i.low) (hd : 0 < i.denominator) {e : Int}
    (he : i.Reaches e) (tiesUp : Bool) (n : Nat) : 0 < (i.search tiesUp e n).coefficient := by
  induction n generalizing e with
  | zero => exact Nat.div_pos he (Nat.mul_pos hd (Nat.pow_pos (by decide)))
  | succ n ih =>
      rw [search]
      split
      · rename_i c hc
        exact onGrid_pos hl hc
      · exact ih (he.finer (by omega))

end Interval

theorem coefficient_shortest_pos {b : Binary} (hb : 0 < b.mantissa) (tiesUp : Bool) :
    0 < (shortest tiesUp b).coefficient := by
  have hup : 0 < Nat.pow 2 b.exponent.toNat := Nat.pow_pos (by decide)
  have hdown : 0 < Nat.pow 2 (-b.exponent).toNat := Nat.pow_pos (by decide)
  have hl : 0 < b.interval.low := by
    refine Nat.mul_pos ?_ hup
    split <;> omega
  have hv : 0 < b.interval.value := Nat.mul_pos (by omega) hup
  have hd : 0 < b.interval.denominator := Nat.mul_pos (by decide) hdown
  exact Interval.coefficient_search_pos hl hd (Interval.reaches_leading hv hd) tiesUp 17

theorem mantissa_ofBits_pos {bits : UInt64} (h : bits.toNat % signBit ≠ 0) :
    0 < (Binary.ofBits bits).mantissa := by
  rw [Binary.ofBits]
  split
  · rename_i hf
    simp only [hiddenBit, signBit] at *
    omega
  · exact Nat.add_pos_right _ (by decide)

/-! ## The digits that are kept -/

theorem digits_ne_nil {x : Scaled} (h : 0 < x.coefficient) : x.digits.1 ≠ [] := by
  intro hnil
  have hz : ∀ c ∈ Nat.toDigits 10 x.coefficient, c = '0' := by
    intro c hc
    have hall := List.dropWhile_eq_nil_iff.mp (List.reverse_eq_nil_iff.mp hnil)
    exact beq_iff_eq.mp (hall c (List.mem_reverse.mpr hc))
  have hzero (cs : List Char) (hcs : ∀ c ∈ cs, c = '0') : Nat.ofDigitChars 10 cs 0 = 0 := by
    induction cs with
    | nil => rfl
    | cons c cs ih =>
        rw [List.forall_mem_cons] at hcs
        rw [hcs.1, Nat.ofDigitChars_cons]
        exact ih hcs.2
  have hc : Nat.ofDigitChars 10 (Nat.toDigits 10 x.coefficient) 0 = x.coefficient :=
    Nat.ofDigitChars_ten_toDigits
  rw [hzero _ hz] at hc
  omega

theorem isDigits_digits {x : Scaled} (h : 0 < x.coefficient) : IsDigits x.digits.1 := by
  refine ⟨digits_ne_nil h, fun c hc => (isDigits_toDigits x.coefficient).2 c ?_⟩
  exact List.mem_reverse.mp ((List.dropWhile_suffix _).subset (List.mem_reverse.mp hc))

/-- In positional notation the point stands between digits. -/
theorem isUnsigned_positionalText {ds : List Char} (h : IsDigits ds) (e : Int) :
    IsUnsigned (positionalText false ds e) := by
  have hlen := List.length_pos_iff.mpr h.1
  rw [positionalText]
  split
  · rw [if_neg Bool.false_ne_true, List.append_nil]
    exact .whole (h.append (isDigit_replicate _))
  · dsimp only
    split
    · refine .fraction ⟨?_, fun c hc => h.2 c (List.mem_of_mem_take hc)⟩
        ⟨?_, fun c hc => h.2 c (List.mem_of_mem_drop hc)⟩
      · rw [← List.length_pos_iff, List.length_take]
        omega
      · rw [← List.length_pos_iff, List.length_drop]
        omega
    · exact .fraction isDigits_zero (h.behind (isDigit_replicate _))

/-! ## Finite numbers -/

/-- Whether bits are those of a number that is neither infinite nor a NaN. -/
def isFinite (bits : UInt64) : Bool := bits.toNat % signBit < infinityBits

/-- A finite number is written as digits with an optional fraction, behind a minus if its sign is
set. -/
theorem bitsText_of_isFinite {bits : UInt64} (h : isFinite bits = true) :
    ∃ cs, IsUnsigned cs ∧ bitsText sqlStyle bits =
      (if signBit ≤ bits.toNat then "-" else "") ++ String.ofList cs := by
  have hlt : bits.toNat % signBit < infinityBits := of_decide_eq_true h
  rw [bitsText]
  rw [if_neg (by omega), if_neg (by omega)]
  split
  · exact ⟨_, isUnsigned_positionalText isDigits_zero 0, rfl⟩
  · rename_i hz
    have hc := coefficient_shortest_pos (mantissa_ofBits_pos hz) sqlStyle.tiesUp
    exact ⟨_, isUnsigned_positionalText (isDigits_digits hc) _, rfl⟩

end Decimal

end SqlTree
