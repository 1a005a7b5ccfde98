import SqlTree.Instant.Basic
import SqlTree.Text

/-! Reading an instant: a date, a time of day and an offset in the relaxed form of RFC 3339. White
space may stand before each number and each separator, numbers may be short, a space may stand for
the `T`, the zone may be written `UTC`. -/

namespace SqlTree.Instant.Reader

/-- The number of one to `width` digits at the start of a text; without a width, of all digits. -/
def number (width : Option Nat) (cs : List Char) : Option (Nat × List Char) :=
  let all := cs.takeWhile Char.isDigit
  let ds := match width with
    | some w => all.take w
    | none => all
  if ds.isEmpty then none
  else some (ds.foldl (fun n d => 10 * n + (d.toNat - '0'.toNat)) 0, cs.drop ds.length)

/-- A number of one or two digits after white space, within bounds. -/
def field (low high : Nat) (cs : List Char) : Option (Nat × List Char) := do
  let (n, rest) ← number (some 2) (Text.trimStart cs)
  if low ≤ n ∧ n ≤ high then some (n, rest) else none

/-- A year after white space: up to four digits, or any number of them after a sign. -/
def year (cs : List Char) : Option (Int × List Char) :=
  match Text.trimStart cs with
  | '-' :: rest => (number none rest).map fun (n, r) => (-(n : Int), r)
  | '+' :: rest => (number none rest).map fun (n, r) => ((n : Int), r)
  | rest => (number (some 4) rest).map fun (n, r) => ((n : Int), r)

/-- A separator after white space. -/
def separator (c : Char) (cs : List Char) : Option (List Char) :=
  match Text.trimStart cs with
  | x :: rest => if x = c then some rest else none
  | [] => none

/-- The nanoseconds of an optional fraction; digits after the ninth are dropped. -/
def fraction (cs : List Char) : Option (Nat × List Char) :=
  match cs with
  | '.' :: rest => do
    let (n, after) ← number (some 9) rest
    let read := rest.length - after.length
    some (n * Nat.pow 10 (9 - read), after.dropWhile Char.isDigit)
  | rest => some (0, rest)

/-- Two digits, the first at most `high`. -/
def twoDigits (high : Char) : List Char → Option (Nat × List Char)
  | a :: b :: rest =>
    if a.isDigit ∧ b.isDigit ∧ a ≤ high then
      some (10 * (a.toNat - '0'.toNat) + (b.toNat - '0'.toNat), rest)
    else none
  | _ => none

/-- The offset from universal time in seconds: `Z`, `UTC`, or a signed number of hours and
minutes, between which colons and blanks may stand. -/
def offset (cs : List Char) : Option (Int × List Char) :=
  match Text.trimStart cs with
  | [] => none
  | c :: rest =>
    if ((c :: rest).take 3).map Char.toUpper = ['U', 'T', 'C'] then some (0, rest.drop 2)
    else if c = 'Z' ∨ c = 'z' then some (0, rest)
    else if c = '+' ∨ c = '-' ∨ c = '\u2212' then do
      let (hours, rest) ← twoDigits '9' rest
      let (minutes, rest) ← twoDigits '5' (rest.dropWhile fun c => c == ':' || Text.isBlank c)
      let seconds : Int := hours * 3600 + minutes * 60
      if seconds < 86400 then some (if c = '+' then seconds else -seconds, rest) else none
    else none

end SqlTree.Instant.Reader

namespace SqlTree.Instant

/-- The instant of a date, a time of day and an offset in seconds. The second sixty is a leap
second. -/
def ofLocal? (d : Date) (hour minute second nano : Nat) (offset : Int) : Option Instant :=
  let clock : Int := hour * 3600 + minute * 60 + min second 59
  let total := d.toDay * 86400 + clock - offset
  let day := total / 86400
  if d.isValid ∧ firstDay ≤ d.toDay ∧ d.toDay ≤ lastDay ∧ firstDay ≤ day ∧ day ≤ lastDay then
    some ⟨day, (total % 86400).toNat, if second = 60 then nano + 1000000000 else nano⟩
  else none

/-- Reads an instant. -/
def ofString? (s : String) : Option Instant := do
  let (year, rest) ← Reader.year s.toList
  let rest ← Reader.separator '-' rest
  let (month, rest) ← Reader.field 1 12 rest
  let rest ← Reader.separator '-' rest
  let (day, rest) ← Reader.field 1 31 rest
  let rest ← match rest with
    | c :: rest => if c = 'T' ∨ c = 't' ∨ c = ' ' then some rest else none
    | [] => none
  let (hour, rest) ← Reader.field 0 23 rest
  let rest ← Reader.separator ':' rest
  let (minute, rest) ← Reader.field 0 59 rest
  let rest ← Reader.separator ':' rest
  let (second, rest) ← Reader.field 0 60 rest
  let (nano, rest) ← Reader.fraction rest
  let (offset, rest) ← Reader.offset rest
  if (Text.trimStart rest).isEmpty then
    ofLocal? ⟨year, month, day⟩ hour minute second nano offset
  else none

end SqlTree.Instant
