import SqlTree.Text

/-! Texts in quotes: between double quotes with escapes, between single quotes without. Three quotes
open a text of several lines; a line break right after them does not count. -/

namespace SqlTree.Toml.Quoted

/-- The double quote, which opens a text with escapes. -/
def basic : Char := '\x22'

/-- The single quote, which opens a text without escapes. -/
def verbatim : Char := '\x27'

/-- The rest of a text after a line break. -/
def newline? : List Char → Option (List Char)
  | '\n' :: rest => some rest
  | '\r' :: '\n' :: rest => some rest
  | _ => none

/-- Blanks inside a line. -/
def isBlank (c : Char) : Bool := c == ' ' || c == '\t'

/-- Characters that stand for themselves: all but control characters, of which the tab may stand. -/
def isPlain (c : Char) : Bool := c == '\t' || (0x20 ≤ c.toNat && c.toNat != 0x7f)

/-- The character a simple escape stands for. -/
def simpleEscape (c : Char) : Option Char :=
  if c = basic ∨ c = '\\' then some c
  else if c = 'b' then some '\x08'
  else if c = 'f' then some '\x0c'
  else if c = 'n' then some '\n'
  else if c = 'r' then some '\r'
  else if c = 't' then some '\t'
  else none

/-- The character with a code of so many hexadecimal digits. -/
def codePoint? (width : Nat) (cs : List Char) : Option (Char × List Char) := do
  if (cs.take width).length ≠ width then none
  let n ← Text.hexNumber? (cs.take width) 0
  if n < 0xd800 ∨ (0xdfff < n ∧ n < 0x110000) then some (Char.ofNat n, cs.drop width) else none

/-- The character of an escape, after its backslash. -/
def escape? : List Char → Option (Char × List Char)
  | [] => none
  | 'u' :: rest => codePoint? 4 rest
  | 'U' :: rest => codePoint? 8 rest
  | c :: rest => (simpleEscape c).map (·, rest)

/-- A text on one line after its opening quote; `done` holds the characters before, last first. -/
def line? (quote : Char) : Nat → List Char → List Char → Option (String × List Char)
  | 0, _, _ => none
  | fuel + 1, done, cs =>
    match cs with
    | [] => none
    | c :: rest =>
      if c = quote then some (String.ofList done.reverse, rest)
      else if c = '\\' ∧ quote = basic then
        match escape? rest with
        | some (x, rest) => line? quote fuel (x :: done) rest
        | none => none
      else if isPlain c then line? quote fuel (c :: done) rest
      else none

/-- Skips blanks and line breaks. -/
def skipLines : Nat → List Char → List Char
  | 0, cs => cs
  | fuel + 1, cs =>
    match newline? cs with
    | some rest => skipLines fuel rest
    | none =>
      match cs with
      | c :: rest => if isBlank c then skipLines fuel rest else c :: rest
      | [] => []

/-- A text of several lines after its opening quotes. Up to two quotes may stand before the three
that close it; a backslash at the end of a line hides the break and the blanks after it. -/
def lines? (quote : Char) : Nat → List Char → List Char → Option (String × List Char)
  | 0, _, _ => none
  | fuel + 1, done, cs =>
    match cs with
    | [] => none
    | c :: rest =>
      if c = quote then
        let quotes := (cs.takeWhile (· == quote)).length
        if quotes < 3 then lines? quote fuel (c :: done) rest
        else
          let inside := min (quotes - 3) 2
          some (String.ofList (done.reverse ++ List.replicate inside quote), cs.drop (inside + 3))
      else if c = '\\' ∧ quote = basic then
        match newline? (rest.dropWhile isBlank) with
        | some rest => lines? quote fuel done (skipLines rest.length rest)
        | none =>
          match escape? rest with
          | some (x, rest) => lines? quote fuel (x :: done) rest
          | none => none
      else if isPlain c then lines? quote fuel (c :: done) rest
      else
        match newline? cs with
        | some rest => lines? quote fuel ('\n' :: done) rest
        | none => none

/-- A text on one line, with its opening quote. -/
def lineText? (cs : List Char) : Option (String × List Char) :=
  match cs with
  | c :: rest => if c = basic ∨ c = verbatim then line? c cs.length [] rest else none
  | [] => none

/-- A text on one or several lines, with its opening quotes. -/
def text? (cs : List Char) : Option (String × List Char) :=
  match cs with
  | c :: d :: e :: rest =>
    if c = d ∧ d = e ∧ (c = basic ∨ c = verbatim) then
      lines? c cs.length [] ((newline? rest).getD rest)
    else lineText? cs
  | _ => lineText? cs

end SqlTree.Toml.Quoted
