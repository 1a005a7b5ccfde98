import SqlTree.Dialect.Profile
import SqlTree.Form.Record

/-! The JSON form of dialect profiles. Only the name is required. -/

namespace SqlTree.Profile

/-- The JSON form of a profile. -/
def form (p : Profile) : Json :=
  .ofFields
    [("name", .text p.name),
     ("base", Form.name p.base),
     ("quote", Form.optional Form.name p.quote),
     ("placeholder", Form.optional Form.name p.placeholder),
     ("unsupported", Form.list Form.name p.unsupported),
     ("supported", Form.list Form.name p.supported)]

/-- Reads the parts of a profile. -/
def parts? (p : Form.Place) : Form.Record Profile := do
  return {
    name := ← Form.field? "name" Form.text?
    base := ← Form.default? "base" .postgres (Form.named? p)
    quote := ← Form.default? "quote" none (Form.orNull? (Form.named? p))
    placeholder := ← Form.default? "placeholder" none (Form.orNull? (Form.named? p))
    unsupported := ← Form.default? "unsupported" [] (Form.list? (Form.named? p))
    supported := ← Form.default? "supported" [] (Form.list? (Form.named? p)) }

/-- Reads a profile from its JSON form. A profile that is read need not be valid. -/
def ofForm? : Json → Option Profile := Form.record? (parts? .alone)

end SqlTree.Profile
