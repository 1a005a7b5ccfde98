import SqlTree.Instant.Basic

/-! # The calendar

Every day has a date of the calendar, and the date tells the day. Years are counted from March, so
that a leap day is the last of its year; four hundred of them are an era. -/

namespace SqlTree.Date

/-- The days of an era before one of its years. -/
def yearStart (y : Int) : Int := 365 * y + y / 4 - y / 100

/-- The days of a year before one of its months. -/
def monthStart (m : Int) : Int := (153 * m + 2) / 5

/-- The year of an era in which a day of the era lies. -/
def yearOf (e : Int) : Int := (e - e / 1460 + e / 36524 - e / 146096) / 365

/-! ## Years -/

/-- A day of an era, counted by centuries, cycles of four years and years. Only the last century and
the last year of a cycle may be a day longer than the others. -/
structure Cycles (e c q n d : Int) : Prop where
  eq : e = 36524 * c + (1461 * q + (365 * n + d))
  century : 0 ≤ c ∧ c ≤ 3
  cycle : 0 ≤ q ∧ q ≤ 24
  year : 0 ≤ n ∧ n ≤ 3
  day : 0 ≤ d ∧ d ≤ 365
  longYear : d = 365 → n = 3
  longCentury : 1461 * q + (365 * n + d) < 36524 ∨ c = 3 ∧ 1461 * q + (365 * n + d) = 36524

theorem exists_cycles {e : Int} (h : 0 ≤ e ∧ e < 146097) : ∃ c q n d, Cycles e c q n d := by
  have hc : ∃ c r : Int, e = 36524 * c + r ∧ (0 ≤ c ∧ c ≤ 3) ∧ 0 ≤ r ∧
      (r < 36524 ∨ c = 3 ∧ r = 36524) :=
    ⟨min (e / 36524) 3, e - 36524 * min (e / 36524) 3, by omega⟩
  obtain ⟨c, r, rfl, hc, hr, hcentury⟩ := hc
  have hq : ∃ q s : Int, r = 1461 * q + s ∧ (0 ≤ q ∧ q ≤ 24) ∧ 0 ≤ s ∧ s < 1461 :=
    ⟨r / 1461, r % 1461, by omega⟩
  obtain ⟨q, s, rfl, hq, hs⟩ := hq
  have hn : ∃ n d : Int, s = 365 * n + d ∧ (0 ≤ n ∧ n ≤ 3) ∧ (0 ≤ d ∧ d ≤ 365) ∧
      (d = 365 → n = 3) := ⟨min (s / 365) 3, s - 365 * min (s / 365) 3, by omega⟩
  obtain ⟨n, d, rfl, hn, hd, hyear⟩ := hn
  exact ⟨c, q, n, d, ⟨rfl, hc, hq, hn, hd, hyear, hcentury⟩⟩

namespace Cycles

variable {e c q n d : Int}

theorem centuries_eq (h : Cycles e c q n d) : e / 36524 - e / 146096 = c := by
  obtain ⟨heq, hc, hq, hn, hd, -, hcentury⟩ := h
  have hpos : 0 ≤ 1461 * q + (365 * n + d) := by omega
  generalize 1461 * q + (365 * n + d) = r at heq hpos hcentury
  omega

theorem yearOf_eq (h : Cycles e c q n d) : yearOf e = 100 * c + 4 * q + n := by
  have hcenturies := h.centuries_eq
  obtain ⟨heq, hc, hq, hn, hd, hyear, -⟩ := h
  obtain ⟨k, hk⟩ : ∃ k, k = (24 * c + q + 365 * n + d) / 1460 := ⟨_, rfl⟩
  have hcycles : e / 1460 = 25 * c + q + k := by omega
  have hlast : 0 ≤ d - k ∧ d - k < 365 := by omega
  rw [yearOf]
  omega

theorem yearStart_eq (h : Cycles e c q n d) : yearStart (100 * c + 4 * q + n) + d = e := by
  obtain ⟨heq, -, hq, hn, -, -, -⟩ := h
  rw [yearStart]
  omega

theorem isLeap_succ (h : Cycles e c q n d) (hlast : d = 365) :
    isLeap (100 * c + 4 * q + n + 1) = true := by
  obtain ⟨heq, hc, hq, hn, hd, hyear, hcentury⟩ := h
  obtain rfl := hyear hlast
  simp only [isLeap, Bool.and_eq_true, Bool.or_eq_true, decide_eq_true_eq]
  omega

end Cycles

/-- A day of an era lies in one of its years. It is the last day of a leap year if 365 days of the
year stand before it. -/
theorem yearOf_bounds {e : Int} (h : 0 ≤ e ∧ e < 146097) :
    (0 ≤ yearOf e ∧ yearOf e ≤ 399) ∧ yearStart (yearOf e) ≤ e ∧ e ≤ yearStart (yearOf e) + 365 ∧
      (e = yearStart (yearOf e) + 365 → isLeap (yearOf e + 1) = true) := by
  obtain ⟨c, q, n, d, h⟩ := exists_cycles h
  have hstart := h.yearStart_eq
  rw [h.yearOf_eq]
  have hleap := h.isLeap_succ
  obtain ⟨-, hc, hq, hn, hd, -, -⟩ := h
  exact ⟨by omega, by omega, by omega, fun hlast => hleap (by omega)⟩

/-! ## Days -/

theorem isLeap_era (y era : Int) : isLeap (y + era * 400) = isLeap y := by
  rw [Bool.eq_iff_iff]
  simp only [isLeap, Bool.and_eq_true, Bool.or_eq_true, decide_eq_true_eq]
  omega

theorem daysIn_le (year : Int) (month : Nat) : daysIn year month ≤ 31 := by
  rw [daysIn]
  split <;> split <;> decide

/-- A date made of the era, the year of the era, the month from March on, and the day of the month.
The month lasts longer than to that day, and so does the year. -/
structure Counted (date : Date) (era y m d : Int) : Prop where
  year_bounds : 0 ≤ y ∧ y ≤ 399
  month_bounds : 0 ≤ m ∧ m ≤ 11
  day_nonneg : 0 ≤ d
  inMonth : monthStart m + d < monthStart (m + 1)
  inYear : monthStart m + d ≤ 365
  leap : monthStart m + d = 365 → isLeap (y + 1) = true
  year_eq : date.year = y + era * 400 + if date.month ≤ 2 then 1 else 0
  month_eq : (date.month : Int) = if m < 10 then m + 3 else m - 9
  day_eq : (date.day : Int) = d + 1

theorem exists_counted (day : Int) :
    ∃ era y m d, day + 719468 = era * 146097 + yearStart y + monthStart m + d ∧
      Counted (ofDay day) era y m d := by
  let era := (day + 719468) / 146097
  let e := day + 719468 - era * 146097
  let n := e - yearStart (yearOf e)
  let m := (5 * n + 2) / 153
  obtain ⟨hy, hlow, hhigh, hleap⟩ := yearOf_bounds (e := e) (by omega)
  have hstart : monthStart m ≤ n := by
    rw [monthStart]
    omega
  have hend : n < monthStart (m + 1) := by
    rw [monthStart]
    omega
  have hyear : (ofDay day).year =
      yearOf e + era * 400 + (if (if m < 10 then m + 3 else m - 9) ≤ 2 then 1 else 0) := rfl
  have hmonth : (ofDay day).month = (if m < 10 then m + 3 else m - 9).toNat := rfl
  have hday : (ofDay day).day = (n - monthStart m + 1).toNat := rfl
  refine ⟨era, yearOf e, m, n - monthStart m, by omega, hy, by omega, by omega, by omega,
    by omega, fun h => hleap (by omega), ?_, by omega, by omega⟩
  rw [hyear, hmonth]
  congr 2
  exact propext (by omega)

namespace Counted

variable {date : Date} {era y m d : Int}

theorem toDay_eq (h : Counted date era y m d) :
    date.toDay = era * 146097 + yearStart y + monthStart m + d - 719468 := by
  obtain ⟨hy, hm, hd, -, -, -, hyear, hmonth, hday⟩ := h
  have hmarch : (if date.month ≤ 2 then date.year - 1 else date.year) = y + era * 400 := by
    rw [hyear]
    split <;> omega
  have hera : (y + era * 400) / 400 = era := by omega
  have hshift : ((date.month : Int) + 9) % 12 = m := by
    rw [hmonth]
    split <;> omega
  rw [toDay, hmarch, hera, hshift, hday, yearStart, monthStart]
  omega

theorem day_le_daysIn (h : Counted date era y m d) : date.day ≤ daysIn date.year date.month := by
  obtain ⟨hy, hm, hd, hend, hlast, hleap, hyear, hmonth, hday⟩ := h
  by_cases hfebruary : m = 11
  · subst hfebruary
    have hstart : monthStart 11 = 337 := rfl
    have hsecond : date.month = 2 := by omega
    have hnext : date.year = y + 1 + era * 400 := by omega
    rw [hsecond, hnext, daysIn, if_pos rfl, isLeap_era]
    cases hl : isLeap (y + 1) with
    | true =>
        rw [if_pos rfl]
        omega
    | false =>
        have hshort : monthStart 11 + d ≠ 365 := fun h =>
          Bool.false_ne_true (hl.symm.trans (hleap h))
        rw [if_neg nofun]
        omega
  · rw [monthStart, monthStart] at hend
    rw [daysIn]
    split <;> split <;> omega

theorem isValid (h : Counted date era y m d) : date.isValid = true := by
  have hlong := h.day_le_daysIn
  obtain ⟨-, hm, hd, -, -, -, -, hmonth, hday⟩ := h
  have hmonths : 1 ≤ date.month ∧ date.month ≤ 12 := by split at hmonth <;> omega
  simp only [Date.isValid, Bool.and_eq_true, decide_eq_true_eq]
  exact ⟨⟨hmonths, by omega⟩, hlong⟩

end Counted

/-- The date of a day tells the day. -/
theorem toDay_ofDay (day : Int) : (ofDay day).toDay = day := by
  obtain ⟨era, y, m, d, hday, h⟩ := exists_counted day
  rw [h.toDay_eq, ← hday, Int.add_sub_cancel]

/-- The date of a day is one of the calendar. -/
theorem isValid_ofDay (day : Int) : (ofDay day).isValid = true := by
  obtain ⟨era, y, m, d, -, h⟩ := exists_counted day
  exact h.isValid

end SqlTree.Date
