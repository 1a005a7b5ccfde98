import SqlTree.Decimal.Reading
import SqlTree.Instant.Basic
import SqlTree.Text
import SqlTree.Toml.Basic

/-! Words of TOML that stand for a value without quotes: truth values, numbers, dates and times. A
word is read as a whole. -/

namespace SqlTree.Toml.Scalar

/-- The digits of a number. An underscore may stand between two digits. -/
def digits? (isDigit : Char → Bool) : Bool → List Char → Option (List Char)
  | afterDigit, [] => if afterDigit then some [] else none
  | afterDigit, c :: cs =>
    if isDigit c then (digits? isDigit true cs).map (c :: ·)
    else if c = '_' ∧ afterDigit then digits? isDigit false cs
    else none

/-- Decimal digits. -/
def decimal? (cs : List Char) : Option (List Char) := digits? Char.isDigit false cs

/-- Decimal digits without a leading zero. -/
def whole? (cs : List Char) : Option (List Char) :=
  (decimal? cs).bind fun ds => if 1 < ds.length ∧ ds.head? = some '0' then none else some ds

/-- The number with the given digits. -/
def ofDigits (base : Nat) (ds : List Char) : Nat :=
  ds.foldl (fun n d => base * n + (Text.hexValue? d).getD 0) 0

/-- A sign, and what follows it. -/
def sign (cs : List Char) : Bool × List Char :=
  match cs with
  | '-' :: r => (true, r)
  | '+' :: r => (false, r)
  | r => (false, r)

/-- Whether a digit belongs to a base. -/
def isDigitOf (base : Nat) (c : Char) : Bool :=
  match Text.hexValue? c with
  | some d => d < base
  | none => false

/-- A number in a base other than ten. -/
def based? (base : Nat) (cs : List Char) : Option Int :=
  (digits? (isDigitOf base) false cs).map fun ds => ofDigits base ds

/-- A whole number of 64 bits. Bases other than ten have no sign. -/
def integer? (cs : List Char) : Option Int := do
  let n ← match cs with
    | '0' :: 'x' :: r => based? 16 r
    | '0' :: 'o' :: r => based? 8 r
    | '0' :: 'b' :: r => based? 2 r
    | cs =>
      let (negative, r) := sign cs
      (whole? r).map fun ds => if negative then -(ofDigits 10 ds : Int) else ofDigits 10 ds
  if Int64.minValue.toInt ≤ n ∧ n ≤ Int64.maxValue.toInt then some n else none

/-- The exponent of a number, and whether there is one. -/
def exponent? : List Char → Option (Int × Bool)
  | [] => some (0, false)
  | _ :: cs =>
    let (negative, r) := sign cs
    (decimal? r).map fun ds => (if negative then -(ofDigits 10 ds : Int) else ofDigits 10 ds, true)

/-- The infinities and what is not a number. -/
def specialFloat? : List Char → Option Float
  | ['i', 'n', 'f'] => some (1.0 / 0.0)
  | ['n', 'a', 'n'] => some (0.0 / 0.0)
  | _ => none

/-- The magnitude of a number with a fraction or an exponent; none within is one too large. -/
def magnitude? (cs : List Char) : Option (Option Float) := do
  let isMark : Char → Bool := fun c => c == 'e' || c == 'E'
  let (plain, power) := (cs.takeWhile (!isMark ·), cs.dropWhile (!isMark ·))
  let (before, after) := (plain.takeWhile (· != '.'), plain.dropWhile (· != '.'))
  let ds ← whole? before
  let fs ← match after with
    | [] => some []
    | _ :: r => decimal? r
  let (e, hasExponent) ← exponent? power
  if after.isEmpty ∧ !hasExponent then none
  return Decimal.nearest? (ofDigits 10 (ds ++ fs)) (e - (fs.length : Int))

/-- A floating-point number. One above the range is refused, one below it is an infinity. -/
def float? (cs : List Char) : Option Float :=
  let (negative, r) := sign cs
  let apply : Float → Float := fun x => if negative then -x else x
  match specialFloat? r with
  | some x => some (apply x)
  | none =>
    match magnitude? r with
    | some (some x) => some (apply x)
    | some none => if negative then some (-1.0 / 0.0) else none
    | none => none

/-- A number of exactly so many digits within bounds, and the rest. -/
def fixed? (width low high : Nat) (cs : List Char) : Option (Nat × List Char) :=
  let ds := cs.take width
  let n := ofDigits 10 ds
  if ds.length = width ∧ ds.all Char.isDigit ∧ low ≤ n ∧ n ≤ high then some (n, cs.drop width)
  else none

/-- The rest after a character. -/
def after? (c : Char) : List Char → Option (List Char)
  | x :: rest => if x = c then some rest else none
  | [] => none

/-- A date of the calendar; gives the rest. -/
def date? (cs : List Char) : Option (List Char) := do
  let (year, rest) ← fixed? 4 0 9999 cs
  let rest ← after? '-' rest
  let (month, rest) ← fixed? 2 1 12 rest
  let rest ← after? '-' rest
  let (_, rest) ← fixed? 2 1 (Date.daysIn year month) rest
  return rest

/-- Hours and minutes; gives the rest. -/
def minutes? (cs : List Char) : Option (List Char) := do
  let (_, rest) ← fixed? 2 0 23 cs
  let (_, rest) ← fixed? 2 0 59 (← after? ':' rest)
  return rest

/-- A time of day, with a fraction of any length; gives the rest. -/
def time? (cs : List Char) : Option (List Char) := do
  let rest ← after? ':' (← minutes? cs)
  let (_, rest) ← fixed? 2 0 60 rest
  match rest with
  | '.' :: r => if (r.takeWhile Char.isDigit).isEmpty then none else some (r.dropWhile Char.isDigit)
  | r => some r

/-- Whether a text is an offset from universal time, or nothing. -/
def isOffset (cs : List Char) : Bool :=
  match cs with
  | [] => true
  | c :: rest =>
    if c = 'Z' ∨ c = 'z' then rest.isEmpty
    else (c == '+' || c == '-') && minutes? rest == some []

/-- Whether a text is a time of day with an optional offset. -/
def isZonedTime (cs : List Char) : Bool :=
  match time? cs with
  | some rest => isOffset rest
  | none => false

/-- Whether a word is a date. -/
def isDate (cs : List Char) : Bool := date? cs == some []

/-- Whether a word is a date, a time of day, or both. Only both together have an offset. -/
def isMoment (cs : List Char) : Bool :=
  time? cs == some [] ||
    match date? cs with
    | some [] => true
    | some (c :: rest) => (c == 'T' || c == 't') && isZonedTime rest
    | none => false

/-- What a word stands for. -/
def word? (cs : List Char) : Option Toml :=
  if cs = ['t', 'r', 'u', 'e'] then some (.bool true)
  else if cs = ['f', 'a', 'l', 's', 'e'] then some (.bool false)
  else if isMoment cs then some (.moment (String.ofList cs))
  else
    match integer? cs with
    | some n => some (.integer n)
    | none => (float? cs).map .float

end SqlTree.Toml.Scalar
