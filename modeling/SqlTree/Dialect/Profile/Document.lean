import SqlTree.Form.Profile
import SqlTree.Toml.Reader

/-! Profiles written as TOML: one profile as a document of its own, or a file with a table for each
of them. Profiles from a file must be valid. -/

namespace SqlTree.Profile

/-- Reads what the top table of a TOML document holds. -/
def ofDocument? {α : Type} (read : Form.Record α) (source : String) : Option α :=
  (Toml.parse? source).bind fun es => Form.record? read (.object (Toml.jsonFields es))

/-- Reads a single profile. -/
def ofToml (source : String) : Except Error Profile :=
  match ofDocument? (parts? .toml) source with
  | some p => p.validate
  | none => .error .unreadableProfile

/-- Reads the profiles of the array `dialect`; without it there are none. The first one that is
not valid tells the error. -/
def listOfToml (source : String) : Except Error (List Profile) :=
  let read := Form.list? (Form.openRecord? (parts? .toml))
  match ofDocument? (Form.default? "dialect" [] read) source with
  | some ps => ps.mapM validate
  | none => .error .unreadableProfile

/-- Reads the profiles of a file, given what it holds, if it is there. It must be UTF-8. -/
def ofFile (content : Option ByteArray) : Except Error (List Profile) :=
  match content.bind String.fromUTF8? with
  | some source => listOfToml source
  | none => .error .unreadableFile

/-- Reads the profiles of a user's own file. Who has none has no profiles. -/
def ofUserFile (content : Option ByteArray) : Except Error (List Profile) :=
  match content with
  | some bytes => ofFile (some bytes)
  | none => .ok []

end SqlTree.Profile
