import SqlTree.Instant.Basic
import SqlTree.Json.Printer
import SqlTree.Uuid

/-! Values: the scalars a query binds as parameters or writes as literals, and arrays of them. -/

namespace SqlTree

/-- A value of a query. -/
inductive Value where
  | null
  | bool (b : Bool)
  | int (n : Int64)
  | float (x : Float)
  | text (s : String)
  | bytes (bs : List UInt8)
  | uuid (u : Uuid)
  | instant (t : Instant)
  | json (j : Json)
  | array (items : List Value)
deriving Inhabited

namespace Value

/-- Whether a value is the null value itself. -/
def isNull : Value → Bool
  | .null => true
  | _ => false

mutual

/-- Equality of values. Floating-point numbers are compared as such. -/
def beq : Value → Value → Bool
  | .null, .null => true
  | .bool a, .bool b => a == b
  | .int a, .int b => a == b
  | .float a, .float b => a == b
  | .text a, .text b => a == b
  | .bytes a, .bytes b => a == b
  | .uuid a, .uuid b => a == b
  | .instant a, .instant b => a == b
  | .json a, .json b => a == b
  | .array a, .array b => beqItems a b
  | _, _ => false
termination_by structural x => x

/-- Equality of lists of values. -/
def beqItems : List Value → List Value → Bool
  | [], [] => true
  | a :: as, b :: bs => beq a b && beqItems as bs
  | _, _ => false
termination_by structural x => x

end

instance : BEq Value := ⟨beq⟩

/-- A text between single quotes, for reading only: nothing in it is escaped. -/
def inQuotes (s : String) : String := "'" ++ s ++ "'"

mutual

/-- The text of a value for a human reader. It is not SQL: quotes inside a text stand as they
are, and of a byte string only the length is told. -/
def display : Value → String
  | .null => "NULL"
  | .bool b => if b then "true" else "false"
  | .int n => toString n.toInt
  | .float x => Decimal.floatText Decimal.sqlStyle x
  | .text s => inQuotes s
  | .bytes bs => "<" ++ toString bs.length ++ " bytes>"
  | .uuid u => inQuotes u.text
  | .instant t => inQuotes (t.text "+00:00")
  | .json j => inQuotes j.render
  | .array items => "[" ++ ", ".intercalate (displayItems items) ++ "]"
termination_by structural x => x

/-- The texts of a list of values. -/
def displayItems : List Value → List String
  | [] => []
  | v :: vs => display v :: displayItems vs
termination_by structural x => x

end

end Value

/-- Types whose elements are values. -/
class ToValue (α : Type) where
  toValue : α → Value

export ToValue (toValue)

instance : ToValue Value := ⟨id⟩
instance : ToValue Bool := ⟨.bool⟩
instance : ToValue Int32 := ⟨fun n => .int n.toInt64⟩
instance : ToValue Int64 := ⟨.int⟩
instance : ToValue UInt32 := ⟨fun n => .int n.toUInt64.toInt64⟩
instance : ToValue Float := ⟨.float⟩
instance : ToValue String := ⟨.text⟩
instance : ToValue Uuid := ⟨.uuid⟩
instance : ToValue Instant := ⟨.instant⟩
instance : ToValue Json := ⟨.json⟩

/-- A missing value is null. -/
instance {α : Type} [ToValue α] : ToValue (Option α) where
  toValue
    | some a => toValue a
    | none => .null

/-- A list is always an array, never a byte string. -/
instance {α : Type} [ToValue α] : ToValue (List α) where
  toValue as := .array (as.map toValue)

end SqlTree
