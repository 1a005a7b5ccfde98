import Mathlib.Tactic.Ring
import SqlTree.Form.Value
import SqlTree.Proofs.Form.Records

/-! # Reading back values

A value is read back from its JSON form. The digits of an identifier tell its bits; of the instants
in a value it has to be known that the calendar gives them back. -/

namespace SqlTree

/-! ## Identifiers -/

namespace Text

theorem hexValue?_lowerHex (n : Nat) : hexValue? (lowerHex n) = some (n % 16) := by
  rw [lowerHex]
  have h : n % 16 < 16 := Nat.mod_lt n (by decide)
  generalize n % 16 = d at h
  decide +revert

theorem lowerHex_ne_hyphen (n : Nat) : lowerHex n ≠ '-' := by
  intro h
  have hn := hexValue?_lowerHex n
  rw [h] at hn
  cases hn

/-- The digits of a number, as many as asked for, are read as the number. -/
theorem hexNumber?_digits (n k acc : Nat) :
    hexNumber? ((List.range k).map fun i => lowerHex (n / 16 ^ (k - 1 - i))) acc =
      some (acc * 16 ^ k + n % 16 ^ k) := by
  induction k generalizing acc with
  | zero => simp [hexNumber?, Nat.mod_one]
  | succ k ih =>
      have htail : (fun i => lowerHex (n / 16 ^ (k + 1 - 1 - i))) ∘ Nat.succ =
          fun i => lowerHex (n / 16 ^ (k - 1 - i)) := by
        funext i
        rw [Function.comp_apply, Nat.add_sub_cancel, Nat.sub_succ, Nat.sub_right_comm]
        rfl
      rw [List.range_succ_eq_map, List.map_cons, List.map_map, htail, hexNumber?,
        hexValue?_lowerHex, Option.bind_some, ih, Nat.mod_pow_succ]
      congr 1
      simp only [Nat.add_sub_cancel, Nat.sub_zero]
      ring

end Text

namespace Uuid

theorem length_digits (u : Uuid) : u.digits.length = 32 := by
  simp [digits]

theorem digits_ne_hyphen (u : Uuid) : ∀ d ∈ u.digits, (d != '-') = true := by
  intro d hd
  obtain ⟨i, -, rfl⟩ := List.mem_map.mp hd
  exact bne_iff_ne.mpr (Text.lowerHex_ne_hyphen _)

theorem ofDigits?_digits (u : Uuid) : ofDigits? u.digits = some u := by
  have hn : Text.hexNumber? u.digits 0 = some u.bits.toNat := by
    have h := Text.hexNumber?_digits u.bits.toNat 32 0
    rwa [Nat.mod_eq_of_lt (by exact u.bits.isLt), Nat.zero_mul, Nat.zero_add] at h
  rw [ofDigits?, if_pos u.length_digits, hn, Option.map_some, BitVec.ofNat_toNat,
    BitVec.setWidth_eq]

theorem length_hyphenated {ds : List Char} (h : ds.length = 32) :
    (hyphenated ds).length = 36 := by
  simp [hyphenated, h]

theorem take_drop_append (ds : List Char) (k l : Nat) :
    (ds.drop k).take l ++ ds.drop (k + l) = ds.drop k := by
  rw [← List.drop_drop, List.take_append_drop]

/-- Without the hyphens, a text in groups is the digits again. -/
theorem filter_hyphenated {ds : List Char} (h : ∀ d ∈ ds, (d != '-') = true) :
    (hyphenated ds).filter (· != '-') = ds := by
  have hgroup (k l : Nat) : ((ds.drop k).take l).filter (· != '-') = (ds.drop k).take l :=
    List.filter_eq_self.mpr fun c hc => h c (List.mem_of_mem_drop (List.mem_of_mem_take hc))
  have hfirst : (ds.take 8).filter (· != '-') = ds.take 8 := hgroup 0 8
  have hlast : (ds.drop 20).filter (· != '-') = ds.drop 20 :=
    List.filter_eq_self.mpr fun c hc => h c (List.mem_of_mem_drop hc)
  calc (hyphenated ds).filter (· != '-')
      = ds.take 8 ++ ((ds.drop 8).take 4 ++ ((ds.drop 12).take 4 ++
          ((ds.drop 16).take 4 ++ ds.drop 20))) := by
        simp [hyphenated, hgroup, hfirst, hlast]
    _ = ds := by
        rw [take_drop_append ds 16 4, take_drop_append ds 12 4, take_drop_append ds 8 4,
          List.take_append_drop]

/-- An identifier is read back from its written form. -/
theorem ofString?_text (u : Uuid) : ofString? u.text = some u := by
  have hl : (hyphenated u.digits).length = 36 := length_hyphenated u.length_digits
  have hf := filter_hyphenated u.digits_ne_hyphen
  have hh : ofHyphenated? (hyphenated u.digits) = some u := by
    rw [ofHyphenated?, hf]
    exact (if_pos ⟨u.length_digits, rfl⟩).trans u.ofDigits?_digits
  have hs : u.text.toList = hyphenated u.digits := String.toList_ofList
  rw [ofString?, hs, if_neg (by omega), if_pos hl, hh]

end Uuid

/-! ## Values -/

namespace Value

mutual

/-- The instants in a value. -/
def instants : Value → List Instant
  | .instant t => [t]
  | .array vs => instantsAll vs
  | _ => []
termination_by structural v => v

/-- The instants in a list of values. -/
def instantsAll : List Value → List Instant
  | [] => []
  | v :: vs => v.instants ++ instantsAll vs
termination_by structural vs => vs

end

theorem byte?_toNat (b : UInt8) : Form.byte? (.int b.toNat) = some b := by
  have hb : (0 : Int) ≤ b.toNat ∧ (b.toNat : Int) ≤ 255 := by
    have h := b.toNat_lt
    omega
  rw [Form.byte?, Form.within?, if_pos hb, Option.map_some, Int.toNat_natCast, UInt8.ofNat_toNat]

theorem int64?_toInt (n : Int64) : Form.int64? (.int n.toInt) = some n := by
  have hn := And.intro n.minValue_le_toInt n.toInt_le
  rw [Form.int64?, Form.within?, if_pos hn, Option.map_some, Int64.ofInt_toInt]

theorem bytes?_form (bs : List UInt8) :
    Form.list? Form.byte? (.array (bs.map fun b => .int b.toNat)) = some bs :=
  Form.list?_list fun b _ => byte?_toNat b

/-- What a value is tagged with is read back from the tag, unless it is an array of values. -/
theorem ofForm?_tagged (p : Form.Place) {tag : String} (j : Json) (h : tag ≠ "Array") :
    ofForm? p (tagged tag j) = scalar? p tag j := by
  cases j
  case array js => exact if_neg h
  all_goals rfl

theorem scalar?_uuid (p : Form.Place) (j : Json) :
    scalar? p "Uuid" j = ((Form.text? j).bind Uuid.ofString?).map .uuid := rfl

theorem scalar?_instant (p : Form.Place) (j : Json) :
    scalar? p "Timestamp" j = ((Form.text? j).bind Instant.ofString?).map .instant := rfl

mutual

/-- A value is read back from its JSON form, wherever this stands. -/
theorem ofForm?_form (p : Form.Place) (v : Value)
    (h : ∀ t ∈ v.instants, Instant.ofString? (t.text "Z") = some t) :
    ofForm? p v.form = some v := by
  cases v with
  | null => rfl
  | bool b => exact ofForm?_tagged p _ (by decide)
  | int n =>
      rw [form, ofForm?_tagged p _ (by decide)]
      exact congrArg (Option.map Value.int) (int64?_toInt n)
  | float x => exact ofForm?_tagged p _ (by decide)
  | text s => exact ofForm?_tagged p _ (by decide)
  | bytes bs =>
      rw [form, ofForm?_tagged p _ (by decide)]
      exact congrArg (Option.map Value.bytes) (bytes?_form bs)
  | uuid u =>
      rw [form, ofForm?_tagged p _ (by decide), scalar?_uuid, Form.text?, Option.bind_some,
        u.ofString?_text, Option.map_some]
  | instant t =>
      rw [form, ofForm?_tagged p _ (by decide), scalar?_instant, Form.text?, Option.bind_some,
        h t (List.mem_singleton_self t), Option.map_some]
  | json j => exact ofForm?_tagged p _ (by decide)
  | array vs => exact congrArg (Option.map Value.array) (ofForms?_forms p vs h)
termination_by structural v

@[inherit_doc ofForm?_form]
theorem ofForms?_forms (p : Form.Place) (vs : List Value)
    (h : ∀ t ∈ instantsAll vs, Instant.ofString? (t.text "Z") = some t) :
    ofForms? p (forms vs) = some vs := by
  cases vs with
  | nil => rfl
  | cons v vs =>
      have hv := ofForm?_form p v fun t ht => h t (List.mem_append_left _ ht)
      have hvs := ofForms?_forms p vs fun t ht => h t (List.mem_append_right _ ht)
      rw [forms, ofForms?, hv, hvs]
      rfl
termination_by structural vs

end

end Value

end SqlTree
