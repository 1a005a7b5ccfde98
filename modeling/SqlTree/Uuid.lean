import SqlTree.Text

/-! Universally unique identifiers: 128 bits, written as hexadecimal digits in five groups. -/

namespace SqlTree

/-- A universally unique identifier. -/
structure Uuid where
  bits : BitVec 128
deriving DecidableEq, Repr

namespace Uuid

/-- The 32 digits, the most significant first. -/
def digits (u : Uuid) : List Char :=
  (List.range 32).map fun i => Text.lowerHex (u.bits.toNat / Nat.pow 16 (31 - i))

/-- Hyphens after 8, 12, 16 and 20 digits. -/
def hyphenated (ds : List Char) : List Char :=
  ds.take 8 ++ '-' :: (ds.drop 8).take 4 ++ '-' :: (ds.drop 12).take 4 ++
    '-' :: (ds.drop 16).take 4 ++ '-' :: ds.drop 20

/-- The written form: lower-case digits with hyphens. -/
def text (u : Uuid) : String := String.ofList (hyphenated u.digits)

/-- An identifier from exactly 32 digits. -/
def ofDigits? (ds : List Char) : Option Uuid :=
  if ds.length = 32 then (Text.hexNumber? ds 0).map fun n => ⟨BitVec.ofNat 128 n⟩ else none

/-- An identifier from digits with hyphens in their four places. -/
def ofHyphenated? (cs : List Char) : Option Uuid :=
  let ds := cs.filter (· != '-')
  if ds.length = 32 ∧ cs = hyphenated ds then ofDigits? ds else none

/-- Reads the four accepted forms: bare digits, hyphenated, hyphenated in braces, and hyphenated
after `urn:uuid:`. Letters may be of either case throughout. -/
def ofString? (s : String) : Option Uuid :=
  let cs := s.toList
  let urn := "urn:uuid:".toList
  if cs.length = 32 then ofDigits? cs
  else if cs.length = 36 then ofHyphenated? cs
  else if cs.length = 38 ∧ cs.head? = some '\x7b' ∧ cs.getLast? = some '\x7d' then
    ofHyphenated? (cs.drop 1).dropLast
  else if cs.length = 45 ∧ (cs.take urn.length).map Char.toLower = urn then
    ofHyphenated? (cs.drop urn.length)
  else none

end Uuid

end SqlTree
