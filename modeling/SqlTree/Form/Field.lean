import SqlTree.Json.Basic
import SqlTree.Vocabulary

/-! Reading values from JSON documents, and writing them. A document that does not fit gives
nothing. -/

namespace SqlTree.Form

/-- The fields of an object. -/
abbrev Fields := List (String × Json)

/-- Where a form stands. Some forms have more spellings in one place than in another. -/
inductive Place where
  /-- A JSON document of its own. -/
  | alone
  /-- Within the JSON form of a node. -/
  | node
  /-- Within a TOML document. -/
  | toml
deriving DecidableEq, Repr

/-- Whether a document holds nothing. In a node an empty object will do, and TOML has no null. -/
def Place.isBlank : Place → Json → Bool
  | .alone, .null => true
  | .node, .null | .node, .object [] => true
  | .toml, .array [] | .toml, .object [] => true
  | _, _ => false

section Scalars

/-- A truth value. -/
def bool? : Json → Option Bool
  | .bool b => some b
  | _ => none

/-- A text. -/
def text? : Json → Option String
  | .text s => some s
  | _ => none

/-- A whole number within bounds, both included. -/
def within? (low high : Int) : Json → Option Int
  | .int n => if low ≤ n ∧ n ≤ high then some n else none
  | _ => none

/-- A signed 64-bit number. -/
def int64? (j : Json) : Option Int64 :=
  (within? Int64.minValue.toInt Int64.maxValue.toInt j).map Int64.ofInt

/-- An unsigned 64-bit number. -/
def uint64? (j : Json) : Option UInt64 :=
  (within? 0 (UInt64.size - 1 : Nat) j).map fun n => UInt64.ofNat n.toNat

/-- A byte. -/
def byte? (j : Json) : Option UInt8 :=
  (within? 0 255 j).map fun n => UInt8.ofNat n.toNat

/-- A floating-point number; whole numbers are converted. -/
def float? : Json → Option Float
  | .float x => some x
  | .int n => some (Float.ofInt n)
  | _ => none

/-- A member of an enumeration, by its name. The name may also be the only field of an object that
holds nothing. -/
def named? {α : Type} [Named α] (p : Place) : Json → Option α
  | .text s => Named.ofName? s
  | .object [(s, j)] => if p.isBlank j then Named.ofName? s else none
  | _ => none

end Scalars

section Structure

variable {α : Type}

/-- A list. -/
def list? (read : Json → Option α) : Json → Option (List α)
  | .array js => js.mapM read
  | _ => none

/-- Null, or something else. -/
def orNull? (read : Json → Option α) : Json → Option (Option α)
  | .null => some none
  | j => (read j).map some

/-- A member of an enumeration. -/
def name [Named α] (a : α) : Json := .text (Named.name a)

/-- A value that may be missing. -/
def optional (write : α → Json) : Option α → Json
  | some a => write a
  | none => .null

/-- A list. -/
def list (write : α → Json) (as : List α) : Json := .array (as.map write)

/-- An object with a single field. -/
def only (name : String) (j : Json) : Json := .object [(name, j)]

end Structure

end SqlTree.Form
