import SqlTree.Proofs.Lexical.Plain
import SqlTree.Proofs.Predicate.Expr

/-! # Reading a predicate

OR binds loosest, then AND, NOT, the binary operators and the unary minus. Two binary operators
without parentheses between them are not read, so the reading does not depend on how these bind
among themselves. Parentheses are read from the inside: the text between two of them is a frame
that is read as soon as it is closed. -/

namespace SqlTree

/-! ## Frames -/

/-- What stands in a frame: a token, or expressions in parentheses. -/
inductive Part where
  | token (t : Token)
  | group (es : List Expr)

namespace Token

/-- Whether a token is the given keyword, whatever its case. -/
def isKeyword (k : String) : Token → Bool
  | .word w => w.toList.map Char.toUpper = k.toList
  | _ => false

/-- Whether a token spells a token of an operator. -/
def spells (t : Token) : Token → Bool
  | .word k => t.isKeyword k
  | u => t = u

end Token

namespace Part

/-- Whether a part is a token with a property. -/
def any (p : Token → Bool) : Part → Bool
  | .token t => p t
  | .group _ => false

def isComma : Part → Bool := any (· = .symbol ",")

def isConnective : Connective → Part → Bool
  | .and => any (Token.isKeyword "AND")
  | .or => any (Token.isKeyword "OR")

def isNot : Part → Bool := any (Token.isKeyword "NOT")

/-! ## Operands -/

/-- The names behind a name and a point each, and what follows them. -/
def path : List Part → List String × List Part
  | .token (.symbol ".") :: .token (.name s) :: is => (s :: (path is).1, (path is).2)
  | is => ([], is)

/-- Words and points up to arguments in parentheses, and what follows these. -/
def call? : List Part → Option (String × List Expr × List Part)
  | .group es :: is => some ("", es, is)
  | .token (.word w) :: is => (call? is).map fun r => (w ++ r.1, r.2)
  | .token (.symbol ".") :: is => (call? is).map fun r => ("." ++ r.1, r.2)
  | _ => none

/-- The value whose placeholder is a sign and a position, counted from one. -/
def parameter? (vs : List Value) (mark : String) : Option Value :=
  match Nat.ofDigitChars 10 (mark.toList.drop 1) 0 with
  | 0 => none
  | k + 1 => vs[k]?

/-- The operand at the start of a frame, and what follows it. -/
def operand? (vs : List Value) : List Part → Option (Expr × List Part)
  | .token (.symbol "-") :: is => (operand? vs is).map fun r => (.neg r.1, r.2)
  | .token (.name s) :: is => some (.column (s :: (path is).1), (path is).2)
  | .token (.placeholder s) :: is => (parameter? vs s).map fun v => (.value v, is)
  | .group es :: is =>
    match es with
    | [e] => some (e, is)
    | _ => none
  | is => (call? is).map fun r => (.call r.1 r.2.1, r.2.2)

/-! ## Operators -/

/-- What follows the tokens of an operator. -/
def behind? : List Token → List Part → Option (List Part)
  | [], is => some is
  | t :: ts, .token u :: is => if u.spells t then behind? ts is else none
  | _ :: _, _ => none

/-- The binary operators; one that another begins with comes behind it. -/
def operators : List Operator :=
  [.isNot, .is, .eq, .ne, .lt, .lte, .gt, .gte, .like, .notLike, .iLike, .notILike, .isIn, .notIn,
   .add, .sub, .mul, .div, .mod, .concat]

/-- The binary operator at the start of a frame, as the dialect spells it, and what follows it. -/
def operator? (d : Dialect) (is : List Part) : Option (Operator × List Part) :=
  operators.findSome? fun op => (behind? (Text.tokens (d.operator op)) is).map (op, ·)

/-! ## Levels -/

/-- An operand, or two with a binary operator between them. -/
def readBinary (d : Dialect) (vs : List Value) (is : List Part) : Option Expr := do
  let (l, js) ← operand? vs is
  if js.isEmpty then some l
  else
    let (op, ks) ← operator? d js
    let (r, ls) ← operand? vs ks
    if ls.isEmpty then some (.binary l op r) else none

/-- Any number of NOT before what they negate. -/
def readNot (d : Dialect) (vs : List Value) : List Part → Option Expr
  | [] => none
  | i :: is => if i.isNot then (readNot d vs is).map .not else readBinary d vs (i :: is)

/-- What stands between the connectives of one kind, read in the given way. -/
def readRun (c : Connective) (read : List Part → Option Expr) (is : List Part) : Option Expr :=
  ((is.splitOnP (isConnective c)).mapM read).bind (Expr.joined c)

def readAnd (d : Dialect) (vs : List Value) : List Part → Option Expr := readRun .and (readNot d vs)

def readOr (d : Dialect) (vs : List Value) : List Part → Option Expr := readRun .or (readAnd d vs)

/-- Expressions with commas, or none. -/
def readAll (d : Dialect) (vs : List Value) (is : List Part) : Option (List Expr) :=
  if is.isEmpty then some [] else (is.splitOnP isComma).mapM (readOr d vs)

/-! ## Parentheses -/

/-- One token, with the open frames, the innermost first. -/
def step (d : Dialect) (vs : List Value) : List (List Part) → Token → Option (List (List Part))
  | [], _ => none
  | is :: fs, t =>
    if t = Token.opening then some ([] :: is :: fs)
    else if t = Token.closing then
      match fs with
      | [] => none
      | js :: fs => (readAll d vs is).map fun es => (js ++ [.group es]) :: fs
    else some ((is ++ [.token t]) :: fs)

end Part

/-- The expression that tokens spell, if placeholders stand for the given values. -/
def Expr.ofTokens? (d : Dialect) (vs : List Value) (ts : List Token) : Option Expr := do
  match ← ts.foldlM (Part.step d vs) [[]] with
  | [is] => Part.readOr d vs is
  | _ => none

/-- The expression that a text spells, if placeholders stand for the given values. -/
def Expr.read? (d : Dialect) (vs : List Value) (s : String) : Option Expr :=
  (d.scan? s).bind (ofTokens? d vs)

end SqlTree
