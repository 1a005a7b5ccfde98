import SqlTree.Toml.Quoted
import SqlTree.Toml.Scalar

/-! Reading TOML text: lines, keys and values. -/

namespace SqlTree.Toml.Reader

open Quoted (isBlank isPlain newline?)

/-- Skips blanks inside a line. -/
def skipBlank (cs : List Char) : List Char := cs.dropWhile isBlank

/-- What follows a comment, if there is one. -/
def skipComment (cs : List Char) : List Char :=
  match cs with
  | '#' :: rest => rest.dropWhile isPlain
  | cs => cs

/-- The end of a line, after blanks and a comment; the last line needs no break. -/
def lineEnd? (cs : List Char) : Option (List Char) :=
  match skipComment (skipBlank cs) with
  | [] => some []
  | cs => newline? cs

/-- Skips blanks, line breaks, and comments that end with one. -/
def skipGap : Nat → List Char → List Char
  | 0, cs => cs
  | fuel + 1, cs =>
    match newline? (skipComment (skipBlank cs)) with
    | some rest => skipGap fuel rest
    | none => skipBlank cs

/-- Bounds the parts of a key and the nesting of values. -/
def limit : Nat := 80

/-- Characters of a key without quotes. -/
def isBare (c : Char) : Bool :=
  c.isAlphanum || c == '-' || c == '_'

/-- A key without dots. -/
def simpleKey? (cs : List Char) : Option (String × List Char) :=
  match Quoted.lineText? cs with
  | some r => some r
  | none =>
    let name := cs.takeWhile isBare
    if name.isEmpty then none else some (String.ofList name, cs.dropWhile isBare)

/-- The parts of a dotted key, with blanks around them. -/
def keyParts? : Nat → List Char → Option (List String × List Char)
  | 0, _ => none
  | fuel + 1, cs =>
    match simpleKey? (skipBlank cs) with
    | none => none
    | some (part, rest) =>
      match skipBlank rest with
      | '.' :: rest => (keyParts? fuel rest).map fun (parts, r) => (part :: parts, r)
      | rest => some ([part], rest)

/-- A key: the parts before its last one, and the last one. -/
def key? (cs : List Char) : Option ((List String × String) × List Char) := do
  let (parts, rest) ← keyParts? cs.length cs
  if parts.length < limit then
    let last ← parts.getLast?
    return ((parts.dropLast, last), rest)
  else none

/-- Whether a character may follow a value without quotes. -/
def endsWord (c : Char) : Bool :=
  isBlank c || c == '\n' || c == '\r' || c == ',' || c == ']' || c == '\x7d' || c == '#'

/-- A value without quotes. A blank may stand between a date and a time of day. -/
def bareValue? (cs : List Char) : Option (Toml × List Char) :=
  let (word, rest) := (cs.takeWhile (!endsWord ·), cs.dropWhile (!endsWord ·))
  let time := (rest.drop 1).takeWhile (!endsWord ·)
  if rest.head? = some ' ' ∧ Scalar.isDate word ∧ Scalar.isZonedTime time then
    some (.moment (String.ofList (word ++ ' ' :: time)), (rest.drop 1).dropWhile (!endsWord ·))
  else (Scalar.word? word).map (·, rest)

mutual

/-- A value inside `level` arrays and tables in braces. -/
def value? : Nat → Nat → List Char → Option (Toml × List Char)
  | 0, _, _ => none
  | fuel + 1, level, cs =>
    match cs with
    | [] => none
    | c :: rest =>
      if c = Quoted.basic ∨ c = Quoted.verbatim then
        (Quoted.text? cs).map fun (s, r) => (.text s, r)
      else if c = '[' then
        if level + 1 < limit then
          (items? fuel (level + 1) (skipGap rest.length rest)).map fun (ts, r) => (.array ts, r)
        else none
      else if c = '\x7b' then
        if level + 1 < limit then
          match skipBlank rest with
          | '\x7d' :: rest => some (.inlineTable [], rest)
          | rest => do
            let (body, rest) ← assignments? fuel (level + 1) rest
            return (.inlineTable (← Entries.assignAll [] body), rest)
        else none
      else bareValue? cs

/-- The items of an array up to its closing bracket. A comma may stand before it. -/
def items? : Nat → Nat → List Char → Option (List Toml × List Char)
  | 0, _, _ => none
  | fuel + 1, level, cs =>
    match cs with
    | ']' :: rest => some ([], rest)
    | cs =>
      match value? fuel level cs with
      | none => none
      | some (t, rest) =>
        match skipGap rest.length rest with
        | ',' :: rest =>
          (items? fuel level (skipGap rest.length rest)).map fun (ts, r) => (t :: ts, r)
        | ']' :: rest => some ([t], rest)
        | _ => none

/-- The assignments of a table in braces up to its closing brace. -/
def assignments? : Nat → Nat → List Char → Option (List Assignment × List Char)
  | 0, _, _ => none
  | fuel + 1, level, cs =>
    match assignment? fuel level cs with
    | none => none
    | some (a, rest) =>
      match skipBlank rest with
      | ',' :: rest => (assignments? fuel level rest).map fun (as, r) => (a :: as, r)
      | '\x7d' :: rest => some ([a], rest)
      | _ => none

/-- An assignment to a key. -/
def assignment? : Nat → Nat → List Char → Option (Assignment × List Char)
  | 0, _, _ => none
  | fuel + 1, level, cs =>
    match key? cs with
    | some ((path, key), '=' :: rest) =>
      (value? fuel level (skipBlank rest)).map fun (t, r) => (⟨path, key, t⟩, r)
    | _ => none

end

/-- A header, after its opening bracket. -/
def header? (cs : List Char) : Option (Header × List Char) :=
  match cs with
  | '[' :: rest => do
    match ← key? rest with
    | ((path, key), ']' :: ']' :: rest) => some (⟨path, key, true⟩, rest)
    | _ => none
  | rest => do
    match ← key? rest with
    | ((path, key), ']' :: rest) => some (⟨path, key, false⟩, rest)
    | _ => none

/-- The statements of a document. -/
def statements? : Nat → List Char → Option (List Statement)
  | 0, _ => none
  | fuel + 1, cs =>
    match skipBlank cs with
    | [] => some []
    | '[' :: rest => do
      let (h, rest) ← header? rest
      return .header h :: (← statements? fuel (← lineEnd? rest))
    | c :: rest =>
      if c = '#' ∨ c = '\n' ∨ c = '\r' then (lineEnd? (c :: rest)).bind (statements? fuel)
      else do
        let (a, rest) ← assignment? (2 * rest.length + 4) 0 (c :: rest)
        return .assignment a :: (← statements? fuel (← lineEnd? rest))

end SqlTree.Toml.Reader

namespace SqlTree.Toml

/-- The document a text holds; a byte order mark may stand before it. -/
def parse? (s : String) : Option Entries := do
  let cs := match s.toList with
    | '\ufeff' :: rest => rest
    | cs => cs
  Entries.ofStatements? (← Reader.statements? (cs.length + 1) cs)

end SqlTree.Toml
