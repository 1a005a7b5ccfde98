import SqlTree.Json.Basic
import SqlTree.Json.Refusal
import SqlTree.Decimal.Reading
import SqlTree.Text

/-! Reading JSON text. -/

namespace SqlTree.Json.Reader

/-- Stops at the next character, for one reason if there is one and for another at the end of the
text. -/
def stop {α : Type} (atEnd wrong : Flaw) : Reader α :=
  fun cs => .error ⟨if cs.isEmpty then atEnd else wrong, cs, 1⟩

/-- The text after the white space of JSON. -/
def visible : Reader (List Char) := do
  modify fun cs => cs.dropWhile fun c => c == ' ' || c == '\t' || c == '\n' || c == '\r'
  get

/-- Takes a given character. -/
def expect (atEnd wrong : Flaw) (c : Char) : Reader Unit := do
  match ← get with
  | x :: rest => if x = c then set rest else stop atEnd wrong
  | [] => stop atEnd wrong

/-- Takes the rest of a literal word, which stands for a document. -/
def word (j : Json) (w : List Char) : Reader Json := do
  w.forM (expect .endInValue .noWord)
  return j

/-- The code unit of four hexadecimal digits. Four bytes are looked at whatever they hold. -/
def codeUnit : Reader Nat := do
  let cs ← get
  let ds := cs.take 4
  match Text.hexNumber? ds 0, ds.length == 4 with
  | some n, true =>
    set (cs.drop 4)
    return n
  | _, _ =>
    let size := (String.ofList ds).utf8ByteSize
    throw ⟨if size < 4 then .endInString else .badEscape, cs, 4⟩

/-- The character of a `\u` escape, which may need a second escape. -/
def unicodeEscape : Reader Char := do
  let u ← codeUnit
  if 0xd800 ≤ u ∧ u < 0xdc00 then
    expect .endInString .openPair '\\'
    expect .endInString .openPair 'u'
    let v ← codeUnit
    if 0xdc00 ≤ v ∧ v < 0xe000 then
      return Char.ofNat (0x10000 + (u - 0xd800) * 0x400 + (v - 0xdc00))
    else throw ⟨.halfPair, ← get, 0⟩
  else if 0xdc00 ≤ u ∧ u < 0xe000 then throw ⟨.halfPair, ← get, 0⟩
  else return Char.ofNat u

/-- The character a simple escape stands for. -/
def simpleEscape (c : Char) : Option Char :=
  if c = '\x22' ∨ c = '\\' ∨ c = '/' then some c
  else if c = 'b' then some '\x08'
  else if c = 'f' then some '\x0c'
  else if c = 'n' then some '\n'
  else if c = 'r' then some '\r'
  else if c = 't' then some '\t'
  else none

/-- The character of an escape, after the backslash. -/
def escape : Reader Char := do
  match ← get with
  | [] => stop .endInString .badEscape
  | c :: rest =>
    if c = 'u' then
      set rest
      unicodeEscape
    else
      match simpleEscape c with
      | some x =>
        set rest
        return x
      | none => stop .endInString .badEscape

/-- The rest of a text in quotes, after the opening quote; `done` holds the characters before,
last first. -/
def stringBody : Nat → List Char → Reader String
  | 0, _ => stop .endInString .endInString
  | fuel + 1, done => do
    match ← get with
    | [] => stop .endInString .control
    | c :: rest =>
      if c = '\x22' then
        set rest
        return String.ofList done.reverse
      else if c.toNat < 0x20 then stop .endInString .control
      else
        set rest
        stringBody fuel ((← if c = '\\' then escape else pure c) :: done)

/-- The text that starts after an opening quote. -/
def string : Reader String := do
  stringBody ((← get).length + 1) []

/-- The value of a decimal digit. -/
def digit (c : Char) : Nat := c.toNat - '0'.toNat

/-- Takes digits, at least one. -/
def digits : Reader (List Char) := do
  let cs ← get
  set (cs.dropWhile Char.isDigit)
  match cs.takeWhile Char.isDigit with
  | [] => stop .endInValue .badNumber
  | ds => return ds

/-- The digits before a point. A zero stands alone. -/
def whole : Reader (List Char) := do
  let cs ← get
  let ds ← digits
  if 1 < ds.length ∧ ds.head? = some '0' then
    set (cs.drop 1)
    stop .endInValue .badNumber
  else return ds

/-- The digits after a point, or none. -/
def fraction : Reader (Option (List Char)) := do
  match ← get with
  | '.' :: rest =>
    set rest
    return some (← digits)
  | _ => return none

/-- A sign that may be left out, and whether it is a minus. -/
def sign : Reader Bool := do
  match ← get with
  | '+' :: rest =>
    set rest
    return false
  | '-' :: rest =>
    set rest
    return true
  | _ => return false

/-- The number of the digits at the start of a text, up to the one with which it leaves 32 bits. -/
def leading (n : Nat) : List Char → Nat × List Char
  | [] => (n, [])
  | c :: cs =>
    if c.isDigit then
      let n := 10 * n + digit c
      if Int32.maxValue.toInt < n then (n, cs) else leading n cs
    else (n, c :: cs)

/-- An exponent, or none. Digits that cannot matter any more are left. -/
def exponent : Reader (Option Int) := do
  match ← get with
  | c :: rest =>
    if c = 'e' ∨ c = 'E' then
      set rest
      let negative ← sign
      let cs ← get
      let _ ← digits
      let (n, rest) := leading 0 cs
      set rest
      return some (if negative then -(n : Int) else n)
    else return none
  | [] => return none

/-- A number after its sign. One with a fraction or an exponent is a floating-point number, and so
are negative zero and whole numbers beyond 64 bits. -/
def number (negative : Bool) : Reader Json := do
  let wholePart := (← whole).foldl (fun r d => r.wholeDigit (digit d)) Decimal.Reading.start
  let ds ← fraction
  let reading := (ds.getD []).foldl (fun r d => r.fractionDigit (digit d)) wholePart.point
  let e ← exponent
  if ds.isNone ∧ e.isNone ∧ !wholePart.full then
    let n := wholePart.significand
    if !negative then return .int n
    else if n = 0 ∨ -(n : Int) < Int64.minValue.toInt then return .float (-(Float.ofNat n))
    else return .int (-(n : Int))
  else
    match ({ reading with exponent := reading.exponent + e.getD 0 } : Decimal.Reading).toFloat? with
    | none => throw ⟨.outOfRange, ← get, 0⟩
    | some x =>
      modify (·.dropWhile Char.isDigit)
      return .float (if negative then -x else x)

/-- The items of an array up to its closing bracket. -/
def items (item : Reader Json) : Nat → Reader (List Json)
  | 0 => stop .endInArray .noItemEnd
  | fuel + 1 => do
    let j ← item
    match ← visible with
    | ']' :: rest =>
      set rest
      return [j]
    | ',' :: rest =>
      set rest
      match ← visible with
      | ']' :: _ => stop .endInValue .trailingComma
      | _ => return j :: (← items item fuel)
    | _ => stop .endInArray .noItemEnd

/-- An array after its opening bracket. -/
def array (item : Reader Json) (fuel : Nat) : Reader Json := do
  match ← visible with
  | [] => stop .endInArray .noValue
  | ']' :: rest =>
    set rest
    return .array []
  | _ => return .array (← items item fuel)

/-- A field: its name, a colon and its value. -/
def field (item : Reader Json) : Reader (String × Json) := do
  expect .endInValue .noName '\x22'
  let name ← string
  let _ ← visible
  expect .endInObject .noColon ':'
  return (name, ← item)

/-- The fields of an object up to its closing brace. -/
def fields (item : Reader Json) : Nat → Reader (List (String × Json))
  | 0 => stop .endInObject .noFieldEnd
  | fuel + 1 => do
    let f ← field item
    match ← visible with
    | '\x7d' :: rest =>
      set rest
      return [f]
    | ',' :: rest =>
      set rest
      match ← visible with
      | '\x7d' :: _ => stop .endInValue .trailingComma
      | _ => return f :: (← fields item fuel)
    | _ => stop .endInObject .noFieldEnd

/-- An object after its opening brace. -/
def object (item : Reader Json) (fuel : Nat) : Reader Json := do
  match ← visible with
  | [] => stop .endInObject .noName
  | '\x7d' :: rest =>
    set rest
    return .object []
  | _ => return ofFields (← fields item fuel)

/-- A document of at most `depth` levels of arrays and objects. -/
def value (fuel depth : Nat) : Reader Json := do
  match ← visible with
  | [] => stop .endInValue .noValue
  | c :: rest =>
    if c.isDigit then number false
    else if c = '[' ∨ c = '\x7b' then
      match depth with
      | 0 => stop .endInValue .tooDeep
      | depth + 1 =>
        set rest
        if c = '[' then array (value fuel depth) fuel else object (value fuel depth) fuel
    else if c = '-' then
      set rest
      number true
    else if c = '\x22' then
      set rest
      return .text (← string)
    else if c = 'n' then
      set rest
      word .null ['u', 'l', 'l']
    else if c = 't' then
      set rest
      word (.bool true) ['r', 'u', 'e']
    else if c = 'f' then
      set rest
      word (.bool false) ['a', 'l', 's', 'e']
    else stop .endInValue .noValue

/-- The most levels of arrays and objects that are read. -/
def deepest : Nat := 127

/-- The document that makes up a text, with nothing but white space around it. -/
def document : Reader Json := do
  let j ← value ((← get).length + 1) deepest
  match ← visible with
  | [] => return j
  | _ => stop .trailingText .trailingText

end SqlTree.Json.Reader

namespace SqlTree.Json

/-- The document a text holds, or why and where the text is refused. -/
def parse (s : String) : Except Refusal Json :=
  match (Reader.document s.toList).map (·.1) with
  | .ok j => .ok j
  | .error stop => .error (stop.refusal s)

end SqlTree.Json
