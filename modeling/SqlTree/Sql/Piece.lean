import SqlTree.Dialect
import SqlTree.Error

/-! SQL text in pieces. Rendering a tree decides which pieces stand where; only putting the pieces
together writes quotes, literals and placeholders. -/

namespace SqlTree

/-- A piece of SQL text. -/
inductive Piece where
  /-- Text that is written as it is. -/
  | text (s : String)
  /-- An identifier, written in quotes. -/
  | name (s : String)
  /-- A value that is written as a literal. -/
  | literal (v : Value)
  /-- A value that is bound as a parameter and leaves a placeholder. -/
  | bound (v : Value)

/-- The pieces of a part of a tree, or why the dialect cannot write it. -/
abbrev Rendering := Except Error (List Piece)

namespace Piece

/-- Whether a piece leaves no text at all. -/
def isEmpty : Piece → Bool
  | .text s => s.isEmpty
  | _ => false

/-- The value a piece binds. -/
def bound? : Piece → Option Value
  | .bound v => some v
  | _ => none

/-- The text of pieces whose first bound value has the given position. -/
def write (d : Dialect) : Nat → List Piece → String
  | _, [] => ""
  | k, .text s :: ps => s ++ write d k ps
  | k, .name s :: ps => d.identifier s ++ write d k ps
  | k, .literal v :: ps => d.literal v ++ write d k ps
  | k, .bound _ :: ps => d.placeholder.text k ++ write d (k + 1) ps

end Piece

namespace Rendering

/-- A fixed text. -/
def text (s : String) : Rendering := .ok [.text s]

/-- One rendering after another; the first failure counts. -/
def seq : List Rendering → Rendering
  | [] => .ok []
  | r :: rs => do
    let ps ← r
    let qs ← seq rs
    return ps ++ qs

/-- Renderings with a text between each two. -/
def separated (separator : String) : List Rendering → Rendering
  | [] => .ok []
  | [r] => r
  | r :: rs => seq [r, text separator, separated separator rs]

/-- A rendering in parentheses, if asked for. -/
def parenthesized (wanted : Bool) (r : Rendering) : Rendering :=
  if wanted then seq [text "(", r, text ")"] else r

/-- A rendering that may be missing. -/
def optional (r : Option Rendering) : Rendering := r.getD (.ok [])

/-- Fragments with a rendering after each; renderings without a fragment before them are left
out. -/
def interleaved : List String → List Rendering → Rendering
  | [], _ => .ok []
  | f :: fs, [] => seq [text f, interleaved fs []]
  | f :: fs, r :: rs => seq [text f, r, interleaved fs rs]

end Rendering

end SqlTree
