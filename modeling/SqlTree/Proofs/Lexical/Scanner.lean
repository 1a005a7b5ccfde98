import SqlTree.Dialect.Engine

/-! # A scanner for SQL text

The scanner reads a text character by character under the quoting rules of a dialect. It refuses
a quote that is never closed, the start of a comment outside quotes, and a quote right behind a
word other than `X`, where engines read a string of another kind. -/

namespace SqlTree

/-! ## Tokens -/

/-- A token of SQL text. -/
inductive Token where
  /-- An identifier in quotes, without them. -/
  | name (s : String)
  /-- A string in single quotes, without them and unescaped. -/
  | string (s : String)
  /-- The digits of a byte string. -/
  | bytes (s : String)
  /-- The mark of a bound value, as it stands in the text. -/
  | placeholder (s : String)
  /-- Letters, digits and underscores. -/
  | word (s : String)
  /-- One character of punctuation, or an operator of one or two characters. -/
  | symbol (s : String)
deriving DecidableEq, Repr

namespace Token

def opening : Token := .symbol "("

def closing : Token := .symbol ")"

/-- The number of open parentheses behind some tokens, if none closes that is not open. -/
def depth : Nat → List Token → Option Nat
  | k, [] => some k
  | k, t :: ts =>
    if t = opening then depth (k + 1) ts
    else if t = closing then if k = 0 then none else depth (k - 1) ts
    else depth k ts

end Token

/-! ## Characters -/

/-- What stands between quotes. -/
inductive Quoted where
  | name | string | bytes
deriving DecidableEq, Repr

/-- The token of a quoted text. -/
def Quoted.token : Quoted → String → Token
  | .name => .name
  | .string => .string
  | .bytes => .bytes

/-- Where the scanner is: what it has read of a token, the last character first. -/
inductive Mode where
  /-- Between tokens. -/
  | start
  | word (read : List Char)
  | mark (read : List Char)
  /-- Behind the first character of an operator. -/
  | operator (c : Char)
  /-- Inside quotes. -/
  | quoted (q : Quoted) (read : List Char)
  /-- Inside quotes, behind a backslash. -/
  | escaped (q : Quoted) (read : List Char)
  /-- Behind a closing quote, which the next character may double. -/
  | closed (q : Quoted) (read : List Char)
deriving DecidableEq, Repr

/-- The tokens pending in a mode, if the text may end there. -/
def Mode.pending? : Mode → Option (List Token)
  | .start => some []
  | .word cs => some [.word (String.ofList cs.reverse)]
  | .mark cs => some [.placeholder (String.ofList cs.reverse)]
  | .operator c => some [.symbol (String.singleton c)]
  | .quoted .. | .escaped .. => none
  | .closed q cs => some [q.token (String.ofList cs.reverse)]

/-- What has been read so far: tokens, and the mode behind them. -/
abbrev Scan := List Token × Mode

/-- A letter, a digit or an underscore. Characters beyond ASCII count as letters. -/
def isWordChar (c : Char) : Bool := c.isAlphanum || c = '_' || 128 ≤ c.toNat

/-- Characters that are always tokens of their own, or separate tokens. -/
def isSeparator (c : Char) : Bool := c = ' ' || c = '(' || c = ')' || c = ',' || c = '.'

/-- Characters of operators. -/
def isOperatorChar (c : Char) : Bool :=
  c = '=' || c = '<' || c = '>' || c = '+' || c = '-' || c = '*' || c = '/' || c = '%' || c = '|'

/-- Operators of two characters. -/
def isOperatorPair (c₁ c₂ : Char) : Bool :=
  c₁ = '<' && (c₂ = '=' || c₂ = '>') || c₁ = '>' && c₂ = '=' || c₁ = '|' && c₂ = '|'

/-- The two characters that start a comment. -/
def isCommentStart (c₁ c₂ : Char) : Bool := c₁ = '-' && c₂ = '-' || c₁ = '/' && c₂ = '*'

/-! ## Plain text

Words, separators and operators are the same in all dialects. -/

/-- The tokens of a separator. -/
def separatorTokens (c : Char) : List Token :=
  if c = ' ' then [] else [.symbol (String.singleton c)]

/-- Starts a token of plain text. -/
def Mode.begin? (c : Char) : Option Scan :=
  if isWordChar c then some ([], .word [c])
  else if isSeparator c then some (separatorTokens c, .start)
  else if isOperatorChar c then some ([], .operator c)
  else none

/-- One character of plain text. -/
def Mode.plainStep (m : Mode) (c : Char) : Option Scan :=
  match m with
  | .start => begin? c
  | .word cs =>
    if isWordChar c then some ([], .word (c :: cs))
    else (begin? c).map fun s => (.word (String.ofList cs.reverse) :: s.1, s.2)
  | .operator c₁ =>
    if isCommentStart c₁ c then none
    else if isOperatorPair c₁ c then some ([.symbol (String.ofList [c₁, c])], .start)
    else (begin? c).map fun s => (.symbol (String.singleton c₁) :: s.1, s.2)
  | _ => none

/-- Steps through a text. -/
def Scan.through (step : Mode → Char → Option Scan) : Mode → List Char → Option Scan
  | m, [] => some ([], m)
  | m, c :: cs =>
    (step m c).bind fun s => (through step s.2 cs).map fun t => (s.1 ++ t.1, t.2)

/-! ## Text of a dialect -/

namespace Dialect

/-- Whether a character starts the mark of a bound value. -/
def startsMark (d : Dialect) (c : Char) : Bool :=
  match d.placeholder with
  | .question => c = '?'
  | .numbered sign => sign.toList.head? = some c

/-- The character that closes a quoted text. -/
def closingQuote (d : Dialect) : Quoted → Char
  | .name => d.quotes.closing
  | _ => '\x27'

/-- Starts a token. -/
def beginToken (d : Dialect) (c : Char) : Scan :=
  if c = d.quotes.opening then ([], .quoted .name [])
  else if c = '\x27' then ([], .quoted .string [])
  else if d.startsMark c then ([], .mark [c])
  else (Mode.begin? c).getD ([.symbol (String.singleton c)], .start)

/-- Ends a token and starts the next one. -/
def nextToken (d : Dialect) (t : Token) (c : Char) : Scan :=
  (t :: (d.beginToken c).1, (d.beginToken c).2)

/-- One character of a text. -/
def scanStep (d : Dialect) (m : Mode) (c : Char) : Option Scan :=
  match m with
  | .start => some (d.beginToken c)
  | .word cs =>
    if isWordChar c then some ([], .word (c :: cs))
    else if c = '\x27' then if cs = ['X'] then some ([], .quoted .bytes []) else none
    else some (d.nextToken (.word (String.ofList cs.reverse)) c)
  | .mark cs =>
    if isWordChar c then some ([], .mark (c :: cs))
    else some (d.nextToken (.placeholder (String.ofList cs.reverse)) c)
  | .operator c₁ =>
    if isCommentStart c₁ c then none
    else if isOperatorPair c₁ c then some ([.symbol (String.ofList [c₁, c])], .start)
    else some (d.nextToken (.symbol (String.singleton c₁)) c)
  | .quoted q cs =>
    if c = d.closingQuote q then some ([], .closed q cs)
    else if q = .string && d.backslashEscapes && c = '\\' then some ([], .escaped q cs)
    else some ([], .quoted q (c :: cs))
  | .escaped q cs => some ([], .quoted q (c :: cs))
  | .closed q cs =>
    if c = d.closingQuote q then some ([], .quoted q (c :: cs))
    else some (d.nextToken (q.token (String.ofList cs.reverse)) c)

/-- The tokens of a text, if it is no comment and has no open quote. -/
def scan? (d : Dialect) (s : String) : Option (List Token) := do
  let (ts, m) ← Scan.through d.scanStep .start s.toList
  let us ← m.pending?
  return ts ++ us

/-- A second minus starts a comment, which hides the rest of a line. -/
example : Engine.sqlite.dialect.scan? "1 - -2" ≠ none ∧
    Engine.sqlite.dialect.scan? "1 --2" = none := by
  decide

/-- Where a backslash escapes, it keeps the quote behind it from closing a string. -/
example : Engine.sqlite.dialect.scan? "\x27a\\\x27" = some [.string "a\\"] ∧
    Engine.mysql.dialect.scan? "\x27a\\\x27" = none := by
  decide

end Dialect

end SqlTree
