import SqlTree.Kind

/-! Why a tree cannot be built, changed, compiled or configured, and the words that say so. -/

namespace SqlTree

/-- What is wrong with the structure of a node. -/
inductive Fault where
  | emptyName | noTable | noSelection | noItem | noValue | noRow
  | fragmentCount | binaryOperator
  | noConflictUpdate | noConflictAction
  | noAssignment | noRowSource
  /-- What a transformer finds wrong, in its own words. -/
  | other (reason : String)
deriving DecidableEq, Repr

/-- The clause of a sentence whose subject is the kind of the node. -/
def Fault.text : Fault → String
  | .emptyName => "requires a non-empty name"
  | .noTable => "requires at least one table"
  | .noSelection => "requires at least one selection"
  | .noItem => "requires at least one item"
  | .noValue => "requires at least one value"
  | .noRow => "requires at least one row"
  | .fragmentCount => "requires exactly one more SQL fragment than parameters"
  | .binaryOperator => "requires a unary operator"
  | .noConflictUpdate => "DO UPDATE requires at least one assignment"
  | .noConflictAction => "requires DO NOTHING or DO UPDATE assignments"
  | .noAssignment => "requires at least one SET assignment"
  | .noRowSource => "requires VALUES, a source query or DEFAULT VALUES"
  | .other reason => reason

/-- Why an operation on trees, dialects or profiles fails. -/
inductive Error where
  /-- A node of this kind is malformed. -/
  | invalid (kind : Kind) (fault : Fault)
  /-- The dialect has no syntax for something in the tree. -/
  | unsupported (clause dialect : String)
  /-- A node of one kind stands where another kind is required. -/
  | mismatch (expected found : Kind)
  /-- A dialect profile has an empty name. -/
  | unnamedProfile
  /-- A dialect profile both adds and removes a kind. -/
  | contradictoryProfile (profile : String) (kind : Kind)
  /-- A profile document is malformed, or does not fit the fields of a profile. -/
  | unreadableProfile
  /-- A profile file is missing or is not text. -/
  | unreadableFile
deriving DecidableEq, Repr

/-- The message of an error. The last two causes carry no message of their own. -/
def Error.message : Error → String
  | .invalid kind fault => "Invalid structure: " ++ kind.name ++ " " ++ fault.text
  | .unsupported clause dialect =>
      "Unsupported clause: " ++ clause ++ " is not supported by the " ++ dialect ++ " dialect"
  | .mismatch expected found =>
      "Kind mismatch: expected " ++ expected.name ++ ", found " ++ found.name
  | .unnamedProfile => "Configuration error: dialect profile requires a name"
  | .contradictoryProfile profile kind =>
      "Configuration error: dialect profile '" ++ profile ++ "' lists " ++ kind.name ++
        " as both supported and unsupported"
  | .unreadableProfile => "Configuration error"
  | .unreadableFile => "File cannot be read as text"

/-- The error of a computation that fails. -/
def refusal? {α : Type} : Except Error α → Option Error
  | .ok _ => none
  | .error e => some e

theorem refusal?_eq_some {α : Type} {x : Except Error α} {e : Error} :
    refusal? x = some e ↔ x = .error e := by
  cases x <;> simp [refusal?]

theorem refusal?_map {α β : Type} (f : α → β) (x : Except Error α) :
    refusal? (x.map f) = refusal? x := by
  cases x <;> rfl

end SqlTree
