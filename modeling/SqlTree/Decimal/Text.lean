import SqlTree.Decimal.Shortest

/-! How a floating-point number is written: its shortest digits, in one of two notations. -/

namespace SqlTree.Decimal

/-- The decisions of a format that the digits leave open. -/
structure Style where
  /-- Of two equally near decimals the upper one is taken, otherwise the even one. -/
  tiesUp : Bool
  /-- Whether a number whose first digit has this exponent is written without an exponent. -/
  positional : Int → Bool
  /-- A whole number in positional notation keeps a point and a zero. -/
  wholePoint : Bool

/-- SQL text never has an exponent, and a whole number has no point. -/
def sqlStyle : Style := ⟨true, fun _ => true, false⟩

/-- JSON text is positional from `0.00001` up to below `10 ^ 16`, with a digit after the point. -/
def jsonStyle : Style := ⟨false, fun e => -5 ≤ e && e < 16, true⟩

/-- The digits of a decimal without trailing zeros, and the exponent of the last one. -/
def Scaled.digits (d : Scaled) : List Char × Int :=
  let ds := Nat.toDigits 10 d.coefficient
  let kept := (ds.reverse.dropWhile (· == '0')).reverse
  (kept, d.exponent + (ds.length - kept.length : Nat))

/-- Digits `ds`, the last one of exponent `e`, without an exponent. -/
def positionalText (wholePoint : Bool) (ds : List Char) (e : Int) : List Char :=
  if 0 ≤ e then ds ++ List.replicate e.toNat '0' ++ if wholePoint then ['.', '0'] else []
  else
    let point := (ds.length : Int) + e
    if 0 < point then ds.take point.toNat ++ '.' :: ds.drop point.toNat
    else '0' :: '.' :: List.replicate (-point).toNat '0' ++ ds

/-- Digits `ds` with the first one of exponent `e`, as one digit, a fraction and an exponent. -/
def exponentText (ds : List Char) (e : Int) : List Char :=
  let fraction := if ds.length ≤ 1 then [] else '.' :: ds.drop 1
  let sign := if e < 0 then '-' else '+'
  ds.take 1 ++ fraction ++ 'e' :: sign :: Nat.toDigits 10 e.natAbs

/-- The text of a positive decimal. -/
def Scaled.text (style : Style) (d : Scaled) : List Char :=
  let (ds, e) := d.digits
  let leading := e + (ds.length : Int) - 1
  if style.positional leading then positionalText style.wholePoint ds e
  else exponentText ds leading

/-- The bit of the sign in the bits of a number. -/
def signBit : Nat := 0x8000000000000000

/-- The bits of positive infinity; those of a NaN are above them, sign apart. -/
def infinityBits : Nat := 0x7ff0000000000000

/-- The text of a number given by its bits: NaN and the infinities by name, a negative number
(negative zero too) behind a minus sign. -/
def bitsText (style : Style) (bits : UInt64) : String :=
  let magnitude := bits.toNat % signBit
  let sign := if signBit ≤ bits.toNat then "-" else ""
  if infinityBits < magnitude then "NaN"
  else if magnitude = infinityBits then sign ++ "inf"
  else if magnitude = 0 then sign ++ String.ofList (positionalText style.wholePoint ['0'] 0)
  else sign ++ String.ofList ((shortest style.tiesUp (.ofBits bits)).text style)

/-- The text of a floating-point number. -/
def floatText (style : Style) (x : Float) : String := bitsText style x.toBits

end SqlTree.Decimal
