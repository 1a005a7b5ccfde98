import SqlTree.Json.Basic

/-! TOML documents, and how statements build them. Tables may be written in pieces; how a table came
to be decides which pieces may still be added. -/

namespace SqlTree

namespace Toml

/-- How a table came to be. -/
inductive Origin where
  /-- By a header of its own. -/
  | header
  /-- By a header of a table inside it. -/
  | path
  /-- By a dotted key. -/
  | dotted
deriving DecidableEq, Repr

end Toml

/-- What a key of a TOML document stands for. Dates and times keep their text. -/
inductive Toml where
  | text (s : String)
  | integer (n : Int)
  | float (x : Float)
  | bool (b : Bool)
  | moment (s : String)
  | array (items : List Toml)
  /-- A table in braces, complete where it stands. -/
  | inlineTable (entries : List (String × Toml))
  | table (origin : Toml.Origin) (entries : List (String × Toml))
  /-- A table for each header in double brackets. -/
  | tables (elements : List (List (String × Toml)))
deriving Inhabited

namespace Toml

/-- The keys of a table with what they stand for, in the order of their first mention. -/
abbrev Entries := List (String × Toml)

/-- An assignment to a dotted key: the keys before the last dot, the last one, the value. -/
structure Assignment where
  path : List String
  key : String
  value : Toml

/-- The header of a table, or of one more element of an array of tables. -/
structure Header where
  path : List String
  key : String
  isElement : Bool
deriving DecidableEq, Repr

/-- A line of a document that says something. -/
inductive Statement where
  | header (h : Header)
  | assignment (a : Assignment)

/-- A header with the assignments below it. -/
structure Section where
  header : Header
  body : List Assignment

namespace Entries

/-- What a key stands for. -/
def find? (es : Entries) (key : String) : Option Toml := es.lookup key

/-- Puts a value in the place of the one a key stands for. -/
def replace (es : Entries) (key : String) (value : Toml) : Entries :=
  es.map fun e => if e.1 = key then (key, value) else e

/-- Adds a key at the end. -/
def add (es : Entries) (key : String) (value : Toml) : Entries := es ++ [(key, value)]

/-- Whether a path may go on into a table. A dotted key must not reopen a table that has a header
of its own. -/
def mayEnter (dotted : Bool) (o : Origin) : Bool := !(dotted && o == .header)

/-- Changes the table at the end of a path. Tables on the way that are missing are made; an array
of tables stands for its last element. The change is told whether a dotted key made the table. -/
def modifyAt (dotted : Bool) (change : Bool → Entries → Option Entries) :
    List String → Bool → Entries → Option Entries
  | [], made, es => change made es
  | key :: path, _, es =>
    match es.find? key with
    | none => do
      let inner ← modifyAt dotted change path dotted []
      return es.add key (.table (if dotted then .dotted else .path) inner)
    | some (.table o inner) =>
      if mayEnter dotted o then do
        return es.replace key (.table o (← modifyAt dotted change path (o == .dotted) inner))
      else none
    | some (.tables elements) => do
      let last ← elements.getLast?
      let last ← modifyAt dotted change path false last
      return es.replace key (.tables (elements.dropLast ++ [last]))
    | some _ => none

/-- Makes an assignment. A key is assigned once, and a dotted key only extends tables that dotted
keys made. -/
def assign (es : Entries) (a : Assignment) : Option Entries :=
  modifyAt true
    (fun made inner =>
      if made = !a.path.isEmpty ∧ (inner.find? a.key).isNone then some (inner.add a.key a.value)
      else none)
    a.path false es

/-- Makes assignments one after another. -/
def assignAll (es : Entries) (body : List Assignment) : Option Entries :=
  body.foldlM assign es

/-- Adds a section. Its table must be new or implied by earlier headers only, an element must be
the first of its array or follow others. -/
def addSection (es : Entries) (s : Section) : Option Entries :=
  modifyAt false
    (fun _ inner =>
      match s.header.isElement, inner.find? s.header.key with
      | true, none => do
        return inner.add s.header.key (.tables [← assignAll [] s.body])
      | true, some (.tables elements) => do
        return inner.replace s.header.key (.tables (elements ++ [← assignAll [] s.body]))
      | false, none => do
        return inner.add s.header.key (.table .header (← assignAll [] s.body))
      | false, some (.table .path implied) => do
        return inner.replace s.header.key (.table .header (← assignAll implied s.body))
      | _, _ => none)
    s.header.path false es

end Entries

/-- The assignments before the first header, and the sections. -/
def sections : List Statement → List Assignment × List Section
  | [] => ([], [])
  | .assignment a :: rest =>
    let (body, later) := sections rest
    (a :: body, later)
  | .header h :: rest =>
    let (body, later) := sections rest
    ([], ⟨h, body⟩ :: later)

/-- The document that statements build. -/
def Entries.ofStatements? (statements : List Statement) : Option Entries := do
  let (top, later) := sections statements
  later.foldlM addSection (← assignAll [] top)

mutual

/-- The same content as a JSON document. A date or time is an object, since it is no text. -/
def json : Toml → Json
  | .text s => .text s
  | .integer n => .int n
  | .float x => .float x
  | .bool b => .bool b
  | .moment s => .object [("moment", .text s)]
  | .array items => .array (jsonItems items)
  | .inlineTable es => .ofFields (jsonFields es)
  | .table _ es => .ofFields (jsonFields es)
  | .tables elements => .array (jsonElements elements)
termination_by structural x => x

def jsonItems : List Toml → List Json
  | [] => []
  | t :: ts => json t :: jsonItems ts
termination_by structural x => x

def jsonFields : List (String × Toml) → List (String × Json)
  | [] => []
  | (key, t) :: es => (key, json t) :: jsonFields es
termination_by structural x => x

def jsonElements : List (List (String × Toml)) → List Json
  | [] => []
  | es :: rest => .ofFields (jsonFields es) :: jsonElements rest
termination_by structural x => x

end

end Toml

end SqlTree
