import SqlTree.Form.Field

/-! Records: values that consist of parts with names. A record is written as an object with a field
for each part; the fields may come in any order and unknown ones are ignored. It may also be
written as an array of the parts in their own order. -/

namespace SqlTree.Form

/-- What there is to read the parts of a record from. -/
inductive Source where
  /-- An object. -/
  | fields (fs : Fields)
  /-- The items of an array that have not been read. -/
  | items (js : List Json)

/-- A reader of the parts of a record, from the first to the last. -/
abbrev Record := StateT Source Option

variable {α : Type}

/-- A part that must be there. -/
def field? (name : String) (read : Json → Option α) : Record α
  | .fields fs => ((Json.lookup? name fs).bind read).map (·, .fields fs)
  | .items [] => none
  | .items (j :: js) => (read j).map (·, .items js)

/-- A part that may be null. A field for it may be missing. -/
def optional? (name : String) (read : Json → Option α) : Record (Option α)
  | .fields fs => (orNull? read ((Json.lookup? name fs).getD .null)).map (·, .fields fs)
  | .items [] => none
  | .items (j :: js) => (orNull? read j).map (·, .items js)

/-- A part that may be missing, with the value it then has. -/
def default? (name : String) (a : α) (read : Json → Option α) : Record α
  | .fields fs => (((Json.lookup? name fs).map read).getD (some a)).map (·, .fields fs)
  | .items [] => some (a, .items [])
  | .items (j :: js) => (read j).map (·, .items js)

/-- A record. An array holds no more than its parts. -/
def record? (read : Record α) : Json → Option α
  | .object fs => (read (.fields fs)).map (·.1)
  | .array js =>
    match read (.items js) with
    | some (a, .items []) => some a
    | _ => none
  | _ => none

/-- A record. What follows its parts in an array is ignored. -/
def openRecord? (read : Record α) : Json → Option α
  | .object fs => (read (.fields fs)).map (·.1)
  | .array js => (read (.items js)).map (·.1)
  | _ => none

/-- The only part of a record. -/
def inside? (name : String) (read : Json → Option α) : Json → Option α :=
  record? (field? name read)

end SqlTree.Form
