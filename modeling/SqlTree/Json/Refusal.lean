/-! Why a text is not a JSON document, and where this shows: the line, and the column counted in
bytes. -/

namespace SqlTree.Json

/-- What is wrong with a text. -/
inductive Flaw where
  | endInArray | endInObject | endInString | endInValue
  | noColon | noItemEnd | noFieldEnd | noWord | noValue | noName
  | badEscape | badNumber | outOfRange | control | halfPair | openPair
  | trailingComma | trailingText | tooDeep
deriving DecidableEq, Repr

/-- The words for a flaw. -/
def Flaw.text : Flaw → String
  | .endInArray => "EOF while parsing a list"
  | .endInObject => "EOF while parsing an object"
  | .endInString => "EOF while parsing a string"
  | .endInValue => "EOF while parsing a value"
  | .noColon => "expected `:`"
  | .noItemEnd => "expected `,` or `]`"
  | .noFieldEnd => "expected `,` or `\x7d`"
  | .noWord => "expected ident"
  | .noValue => "expected value"
  | .noName => "key must be a string"
  | .badEscape => "invalid escape"
  | .badNumber => "invalid number"
  | .outOfRange => "number out of range"
  | .control => "control character (\\u0000-\\u001F) found while parsing a string"
  | .halfPair => "lone leading surrogate in hex escape"
  | .openPair => "unexpected end of hex escape"
  | .trailingComma => "trailing comma"
  | .trailingText => "trailing characters"
  | .tooDeep => "recursion limit exceeded"

/-- A flaw and its place. Lines are counted from one. The column is the number of bytes of the line
that were looked at. -/
structure Refusal where
  flaw : Flaw
  line : Nat
  column : Nat
deriving DecidableEq, Repr

/-- The message of a refusal. -/
def Refusal.message (r : Refusal) : String :=
  r.flaw.text ++ " at line " ++ toString r.line ++ " column " ++ toString r.column

namespace Reader

/-- Where a reader stops: the text that is left, and how many bytes of it were looked at. -/
structure Stop where
  flaw : Flaw
  rest : List Char
  seen : Nat

/-- The refusal of a whole text. No more bytes are looked at than there are. -/
def Stop.refusal (text : String) (s : Stop) : Refusal :=
  let bytes := text.toUTF8.toList
  let before := bytes.take (bytes.length - (String.ofList s.rest).utf8ByteSize + s.seen)
  let newline : UInt8 := 10
  ⟨s.flaw, before.count newline + 1, (before.reverse.takeWhile (· != newline)).length⟩

end Reader

/-- Takes something off the front of a text, or says where it stops. -/
abbrev Reader := StateT (List Char) (Except Reader.Stop)

end SqlTree.Json
