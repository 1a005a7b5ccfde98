import SqlTree.Json.Basic
import SqlTree.Decimal.Text
import SqlTree.Text

/-! Compact JSON text: no blanks, fields in the order of the document. -/

namespace SqlTree.Json

/-- A character inside quotes. Only quotes, backslashes and control characters are escaped. -/
def escaped (c : Char) : List Char :=
  if c = '\x22' then ['\\', '\x22']
  else if c = '\\' then ['\\', '\\']
  else if c = '\x08' then ['\\', 'b']
  else if c = '\x0c' then ['\\', 'f']
  else if c = '\n' then ['\\', 'n']
  else if c = '\r' then ['\\', 'r']
  else if c = '\t' then ['\\', 't']
  else if c.toNat < 0x20 then
    ['\\', 'u', '0', '0', Text.lowerHex (c.toNat / 16), Text.lowerHex c.toNat]
  else [c]

/-- A text in quotes. -/
def quotedText (s : String) : String :=
  "\x22" ++ String.ofList (s.toList.flatMap escaped) ++ "\x22"

mutual

/-- The text of a document. JSON has no NaN and no infinities; they are written as null. -/
def render : Json → String
  | .null => "null"
  | .bool b => if b then "true" else "false"
  | .int n => toString n
  | .float x => if x.isFinite then Decimal.floatText Decimal.jsonStyle x else "null"
  | .text s => quotedText s
  | .array items => "[" ++ ",".intercalate (renderItems items) ++ "]"
  | .object fields => "\x7b" ++ ",".intercalate (renderFields fields) ++ "\x7d"
termination_by structural x => x

/-- The texts of the items of an array. -/
def renderItems : List Json → List String
  | [] => []
  | j :: js => render j :: renderItems js
termination_by structural x => x

/-- The texts of the fields of an object. -/
def renderFields : List (String × Json) → List String
  | [] => []
  | (name, j) :: fs => (quotedText name ++ ":" ++ render j) :: renderFields fs
termination_by structural x => x

end

end SqlTree.Json
