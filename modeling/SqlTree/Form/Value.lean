import SqlTree.Form.Field
import SqlTree.Instant.Reader
import SqlTree.Value

/-! The JSON form of values: an object whose only field names the type. A null has nothing in that
field and is written as the text `Null`. -/

namespace SqlTree.Value

/-- A value with the name of its type. -/
def tagged (tag : String) (j : Json) : Json := .object [(tag, j)]

mutual

/-- The JSON form of a value. -/
def form : Value → Json
  | .null => .text "Null"
  | .bool b => tagged "Bool" (.bool b)
  | .int n => tagged "Int" (.int n.toInt)
  | .float x => tagged "Float" (.float x)
  | .text s => tagged "String" (.text s)
  | .bytes bs => tagged "Bytes" (.array (bs.map fun b => .int b.toNat))
  | .uuid u => tagged "Uuid" (.text u.text)
  | .instant t => tagged "Timestamp" (.text (t.text "Z"))
  | .json j => tagged "Json" j
  | .array vs => tagged "Array" (.array (forms vs))
termination_by structural v => v

/-- The JSON forms of a list of values. -/
def forms : List Value → List Json
  | [] => []
  | v :: vs => form v :: forms vs
termination_by structural vs => vs

end

/-- Reads a scalar value from the name of its type and what is tagged with it. -/
def scalar? (p : Form.Place) (tag : String) (j : Json) : Option Value :=
  match tag with
  | "Null" => if p.isBlank j then some .null else none
  | "Bool" => (Form.bool? j).map .bool
  | "Int" => (Form.int64? j).map .int
  | "Float" => (Form.float? j).map .float
  | "String" => (Form.text? j).map .text
  | "Bytes" => (Form.list? Form.byte? j).map .bytes
  | "Uuid" => ((Form.text? j).bind Uuid.ofString?).map .uuid
  | "Timestamp" => ((Form.text? j).bind Instant.ofString?).map .instant
  | "Json" => some (.json j)
  | _ => none

mutual

/-- Reads a value from its JSON form. -/
def ofForm? (p : Form.Place) : Json → Option Value
  | .text s => if s = "Null" then some .null else none
  | .object [(tag, .array js)] =>
    if tag = "Array" then (ofForms? p js).map .array else scalar? p tag (.array js)
  | .object [(tag, j)] => scalar? p tag j
  | _ => none
termination_by structural j => j

/-- Reads a list of values. -/
def ofForms? (p : Form.Place) : List Json → Option (List Value)
  | [] => some []
  | j :: js =>
    match ofForm? p j with
    | some v => (ofForms? p js).map (v :: ·)
    | none => none
termination_by structural js => js

end

end SqlTree.Value
