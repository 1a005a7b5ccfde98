import SqlTree.Dialect.Engine
import SqlTree.Error

/-! Profiles: named variants of a built-in dialect. -/

namespace SqlTree

/-- How a profile quotes identifiers. -/
inductive QuoteStyle where
  | doubleQuote | backtick | bracket
deriving DecidableEq, Repr

namespace QuoteStyle

/-- The name of a member. -/
def name : QuoteStyle → String
  | .doubleQuote => "double_quote" | .backtick => "backtick" | .bracket => "bracket"

instance : Named QuoteStyle where
  all := [.doubleQuote, .backtick, .bracket]
  name := name

/-- The characters of a style. -/
def quotes : QuoteStyle → Quotes
  | .doubleQuote => .double
  | .backtick => .backtick
  | .bracket => .bracket

end QuoteStyle

/-- How a profile marks bound values. -/
inductive PlaceholderStyle where
  | dollar | question | atP | colon
deriving DecidableEq, Repr

namespace PlaceholderStyle

/-- The name of a member. -/
def name : PlaceholderStyle → String
  | .dollar => "dollar" | .question => "question" | .atP => "at_p" | .colon => "colon"

instance : Named PlaceholderStyle where
  all := [.dollar, .question, .atP, .colon]
  name := name

/-- The placeholder of a style. -/
def placeholder : PlaceholderStyle → Placeholder
  | .dollar => .numbered "$"
  | .question => .question
  | .atP => .numbered "@p"
  | .colon => .numbered ":"

end PlaceholderStyle

/-- A named dialect that differs from the one of an engine in its quotes, its placeholders and
the kinds it supports. -/
structure Profile where
  name : String
  base : Engine := .postgres
  quote : Option QuoteStyle := none
  placeholder : Option PlaceholderStyle := none
  /-- Kinds that are rejected even where the engine has them. -/
  unsupported : List Kind := []
  /-- Kinds that are accepted even where the engine lacks them. -/
  supported : List Kind := []
deriving DecidableEq, Repr

namespace Profile

/-- Whether a profile accepts a kind. Rejection comes first. -/
def supports (p : Profile) (k : Kind) : Bool :=
  !p.unsupported.contains k && (p.supported.contains k || p.base.dialect.supports k)

/-- The dialect of a profile. -/
def dialect (p : Profile) : Dialect :=
  let base := p.base.dialect
  { base with
    name := p.name
    quotes := (p.quote.map (·.quotes)).getD base.quotes
    placeholder := (p.placeholder.map (·.placeholder)).getD base.placeholder
    supports := p.supports }

/-- A profile must have a name and must not contradict itself. -/
def validate (p : Profile) : Except Error Profile :=
  if p.name.isEmpty then .error .unnamedProfile
  else
    match p.unsupported.find? p.supported.contains with
    | some k => .error (.contradictoryProfile p.name k)
    | none => .ok p

end Profile

end SqlTree
