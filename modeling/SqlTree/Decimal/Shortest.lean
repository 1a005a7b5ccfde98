/-! The shortest decimal that reads back as a given binary floating-point number. -/

namespace SqlTree.Decimal

/-- The positive number `mantissa * 2 ^ exponent`. Where the number below lies at half the
distance of the number above, the interval that reads back is narrower on that side. -/
structure Binary where
  mantissa : Nat
  exponent : Int
  narrowBelow : Bool
deriving DecidableEq, Repr

/-- The number `coefficient * 10 ^ exponent`. -/
structure Scaled where
  coefficient : Nat
  exponent : Int
deriving DecidableEq, Repr

/-- The weight of the leading bit of a normal mantissa, which is not stored. -/
def hiddenBit : Nat := 0x10000000000000

/-- The absolute value of a finite number that is not zero, read off its bits. -/
def Binary.ofBits (bits : UInt64) : Binary :=
  let field : Nat := bits.toNat / hiddenBit % 0x800
  let fraction : Nat := bits.toNat % hiddenBit
  if field = 0 then ⟨fraction, -1074, false⟩
  else ⟨fraction + hiddenBit, (field : Int) - 1075, fraction = 0 && 1 < field⟩

/-- A positive number with the bounds of the interval that reads back as it, over one common
denominator. The bounds belong to the interval when the mantissa is even. -/
structure Interval where
  low : Nat
  value : Nat
  high : Nat
  denominator : Nat
  closed : Bool
deriving DecidableEq, Repr

/-- Half the distance to each neighbour belongs to the number. -/
def Binary.interval (b : Binary) : Interval :=
  let up := Nat.pow 2 b.exponent.toNat
  let m := 4 * b.mantissa
  { low := (m - if b.narrowBelow then 1 else 2) * up
    value := m * up
    high := (m + 2) * up
    denominator := 4 * Nat.pow 2 (-b.exponent).toNat
    closed := b.mantissa % 2 = 0 }

/-- The number of decimal digits of a natural number. -/
def digitCount (n : Nat) : Nat := (Nat.toDigits 10 n).length

/-- The exponent of the first decimal digit. -/
def Interval.leading (i : Interval) : Int :=
  if i.denominator ≤ i.value then digitCount (i.value / i.denominator) - 1
  else
    let n := digitCount (i.denominator / i.value)
    if i.value * Nat.pow 10 (n - 1) = i.denominator then -((n : Int) - 1) else -(n : Int)

/-- Whether `c * 10 ^ e` lies in the interval. -/
def Interval.contains (i : Interval) (c : Nat) (e : Int) : Bool :=
  let x := c * i.denominator * Nat.pow 10 e.toNat
  let scale := Nat.pow 10 (-e).toNat
  if i.closed then i.low * scale ≤ x && x ≤ i.high * scale
  else i.low * scale < x && x < i.high * scale

/-- The point of the decimal grid of exponent `e` that is nearest to the number among the two
beside it that lie in the interval; `tiesUp` says which of two equally near points is taken, the
upper or the even one. -/
def Interval.onGrid (i : Interval) (tiesUp : Bool) (e : Int) : Option Nat :=
  let unit := i.denominator * Nat.pow 10 e.toNat
  let x := i.value * Nat.pow 10 (-e).toNat
  let below := x / unit
  match i.contains below e, i.contains (below + 1) e with
  | false, false => none
  | true, false => some below
  | false, true => some (below + 1)
  | true, true =>
    let twice := 2 * (x % unit)
    if twice < unit then some below
    else if unit < twice then some (below + 1)
    else if tiesUp || below % 2 = 1 then some (below + 1) else some below

/-- The first grid, from the coarsest on, that has a point in the interval. Seventeen digits
always suffice. -/
def Interval.search (i : Interval) (tiesUp : Bool) (e : Int) : Nat → Scaled
  | 0 => ⟨i.value * Nat.pow 10 (-e).toNat / (i.denominator * Nat.pow 10 e.toNat), e⟩
  | n + 1 =>
    match i.onGrid tiesUp e with
    | some c => ⟨c, e⟩
    | none => i.search tiesUp (e - 1) n

/-- The decimal with the fewest digits that reads back as the number, the nearest of those. -/
def shortest (tiesUp : Bool) (b : Binary) : Scaled :=
  let i := b.interval
  i.search tiesUp i.leading 17

end SqlTree.Decimal
