/-! Instants of universal time, with the calendar date and time of day they show. -/

namespace SqlTree

/-- An instant. The day is counted from 1970-01-01. From `10 ^ 9` on the nanosecond belongs to a
leap second that follows the second. -/
structure Instant where
  day : Int
  second : Nat
  nano : Nat
deriving DecidableEq, Repr

/-- A date of the proleptic Gregorian calendar. -/
structure Date where
  year : Int
  month : Nat
  day : Nat
deriving DecidableEq, Repr

namespace Date

/-- Whether a year has a twenty-ninth of February. -/
def isLeap (year : Int) : Bool :=
  year % 4 = 0 && (year % 100 ≠ 0 || year % 400 = 0)

/-- The number of days of a month. -/
def daysIn (year : Int) (month : Nat) : Nat :=
  if month = 2 then if isLeap year then 29 else 28
  else if month = 4 ∨ month = 6 ∨ month = 9 ∨ month = 11 then 30
  else 31

/-- Whether the calendar has the date. -/
def isValid (d : Date) : Bool :=
  1 ≤ d.month && d.month ≤ 12 && 1 ≤ d.day && d.day ≤ daysIn d.year d.month

/-- The number of days from 1970-01-01. A year is counted from March, so that its leap day is
the last. -/
def toDay (d : Date) : Int :=
  let year := if d.month ≤ 2 then d.year - 1 else d.year
  let era := year / 400
  let ofEra := year - era * 400
  let ofYear : Int := (153 * ((d.month + 9) % 12) + 2) / 5 + d.day - 1
  era * 146097 + (ofEra * 365 + ofEra / 4 - ofEra / 100 + ofYear) - 719468

/-- The date of a day. -/
def ofDay (day : Int) : Date :=
  let z := day + 719468
  let era := z / 146097
  let ofEra := z - era * 146097
  let yearOfEra := (ofEra - ofEra / 1460 + ofEra / 36524 - ofEra / 146096) / 365
  let ofYear := ofEra - (365 * yearOfEra + yearOfEra / 4 - yearOfEra / 100)
  let shifted := (5 * ofYear + 2) / 153
  let month := if shifted < 10 then shifted + 3 else shifted - 9
  { year := yearOfEra + era * 400 + if month ≤ 2 then 1 else 0
    month := month.toNat
    day := (ofYear - (153 * shifted + 2) / 5 + 1).toNat }

end Date

namespace Instant

/-- The first and the last day on which an instant can lie. -/
def firstDay : Int := Date.toDay ⟨-262143, 1, 1⟩

@[inherit_doc firstDay]
def lastDay : Int := Date.toDay ⟨262142, 12, 31⟩

/-- A number below 100 in two digits. -/
def twoDigits (n : Nat) : List Char := [Nat.digitChar (n / 10 % 10), Nat.digitChar (n % 10)]

/-- A number in at least `width` digits. -/
def padded (width n : Nat) : List Char :=
  let ds := Nat.toDigits 10 n
  List.replicate (width - ds.length) '0' ++ ds

/-- A year in four digits; one outside of 0 to 9999 has a sign. -/
def yearText (year : Int) : List Char :=
  if 0 ≤ year ∧ year ≤ 9999 then padded 4 year.toNat
  else (if year < 0 then '-' else '+') :: padded 4 year.natAbs

/-- A fraction of a second in the fewest of 0, 3, 6 or 9 digits that are exact. -/
def fractionText (nano : Nat) : List Char :=
  if nano = 0 then []
  else if nano % 1000000 = 0 then '.' :: padded 3 (nano / 1000000)
  else if nano % 1000 = 0 then '.' :: padded 6 (nano / 1000)
  else '.' :: padded 9 nano

/-- The written form in universal time, with `zone` for the offset of zero. A leap second is
written as the second sixty. -/
def text (t : Instant) (zone : String) : String :=
  let d := Date.ofDay t.day
  let leap := 1000000000 ≤ t.nano
  let seconds := t.second % 60 + if leap then 1 else 0
  let nano := if leap then t.nano - 1000000000 else t.nano
  String.ofList (yearText d.year ++ '-' :: twoDigits d.month ++ '-' :: twoDigits d.day ++
    'T' :: twoDigits (t.second / 3600) ++ ':' :: twoDigits (t.second / 60 % 60) ++
    ':' :: twoDigits seconds ++ fractionText nano) ++ zone

end Instant

end SqlTree
