/-! Reading a decimal as a floating-point number, in two ways. The exact one takes the nearest
number. The fast one converts the leading digits that fit in 64 bits, then scales them by a power
of ten, and each of these steps rounds. -/

namespace SqlTree.Decimal

/-- The digits read so far: a significand of at most 64 bits and a power of ten. Once a digit
does not fit, it and the digits after it up to the point only move the point. -/
structure Reading where
  significand : Nat
  exponent : Int
  full : Bool

namespace Reading

/-- Nothing read yet. -/
def start : Reading := ⟨0, 0, false⟩

/-- Whether one more digit fits. -/
def fits (r : Reading) (d : Nat) : Bool :=
  !r.full && r.significand * 10 + d < UInt64.size

/-- A digit before the point. -/
def wholeDigit (r : Reading) (d : Nat) : Reading :=
  if r.fits d then { r with significand := r.significand * 10 + d }
  else { r with exponent := r.exponent + 1, full := true }

/-- The point. The digits after it are tried for themselves, also where one before it did not
fit. -/
def point (r : Reading) : Reading := { r with full := false }

/-- A digit after the point. -/
def fractionDigit (r : Reading) (d : Nat) : Reading :=
  if r.fits d then { r with significand := r.significand * 10 + d, exponent := r.exponent - 1 }
  else { r with full := true }

end Reading

/-- The product `x * 10 ^ e`, or `none` where it is too large. A power of ten beyond the range of
the format is divided out `10 ^ 308` at a time. -/
def scale (x : Float) (e : Int) : Nat → Option Float
  | 0 => some x
  | steps + 1 =>
    if e.natAbs ≤ 308 then
      let power := Float.ofScientific 1 false e.natAbs
      if 0 ≤ e then
        let y := x * power
        if y.isInf then none else some y
      else some (x / power)
    else if x == 0.0 then some x
    else if 0 ≤ e then none
    else scale (x / Float.ofScientific 1 false 308) (e + 308) steps

/-- The number that was read. Four steps suffice: a significand is below `10 ^ 20`. -/
def Reading.toFloat? (r : Reading) : Option Float :=
  scale (Float.ofNat r.significand) r.exponent 4

/-- The number nearest to `m * 10 ^ e`, or `none` where that is too large. Outside of 400 decimal
places around the point the answer needs no arithmetic. -/
def nearest? (m : Nat) (e : Int) : Option Float :=
  let leading := (Nat.toDigits 10 m).length + e
  if m = 0 ∨ leading < -400 then some 0.0
  else if 400 < leading then none
  else
    let x := Float.ofScientific m (e < 0) e.natAbs
    if x.isInf then none else some x

end SqlTree.Decimal
