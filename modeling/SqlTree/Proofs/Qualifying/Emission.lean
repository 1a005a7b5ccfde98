import SqlTree.Proofs.Editing.Layouts
import SqlTree.Proofs.Lexical.Layout
import SqlTree.Proofs.Predicate.Merging
import SqlTree.Proofs.Qualifying.Places

/-! # The text of a qualified tree

A qualified tree is refused for the same reason as the tree itself, or it is written with the same
pieces and the schema before the names of the tables that got one. Where these names stand in the
text does not depend on the schema. -/

namespace SqlTree

/-! ## Pieces around the names of tables -/

/-- A piece, or the name of a table with a place for a schema before it. -/
inductive Cell where
  | piece (p : Piece)
  | table (name : String)

namespace Cell

/-- The pieces of a cell, with a schema and a dot before the name of a table if there is one. -/
def pieces (schema : Option String) : Cell → List Piece
  | .piece p => [p]
  | .table t => (schema.map fun s => [.name s, .text "."]).getD [] ++ [.name t]

/-- The pieces of cells one after another. -/
def write (schema : Option String) (cs : List Cell) : List Piece := cs.flatMap (pieces schema)

/-- The name in a cell, if it is one of a table. -/
def table? : Cell → Option String
  | .piece _ => none
  | .table t => some t

/-- The names of tables in cells. -/
def tables (cs : List Cell) : List String := cs.filterMap table?

/-- Whether a cell leaves no text at all. -/
def isEmpty : Cell → Bool
  | .piece p => p.isEmpty
  | .table _ => false

/-- The clauses that leave some text, with a space between each two. -/
def spaced (css : List (List Cell)) : List Cell :=
  List.intercalate [.piece (.text " ")] (css.filter fun cs => !cs.all isEmpty)

theorem write_append (schema : Option String) (cs es : List Cell) :
    write schema (cs ++ es) = write schema cs ++ write schema es := List.flatMap_append

theorem tables_append (cs es : List Cell) : tables (cs ++ es) = tables cs ++ tables es :=
  List.filterMap_append

/-- A schema comes only where a name leaves some text anyway. -/
theorem all_isEmpty_write (schema : Option String) (cs : List Cell) :
    (write schema cs).all Piece.isEmpty = cs.all isEmpty := by
  rw [write, List.all_flatMap]
  apply List.all_congr rfl
  intro c
  cases c with
  | piece p => exact Bool.and_true _
  | table t => cases schema <;> rfl

theorem tables_eq_nil_of_isEmpty {cs : List Cell} (h : cs.all isEmpty = true) :
    tables cs = [] := by
  rw [List.all_eq_true] at h
  refine List.filterMap_eq_nil_iff.mpr fun c hc => ?_
  cases c with
  | piece p => rfl
  | table t => cases h _ hc

theorem write_spaced (schema : Option String) (css : List (List Cell)) :
    write schema (spaced css) = Dialect.spaced (css.map (write schema)) := by
  have hf : (css.map (write schema)).filter (fun ps => !ps.all Piece.isEmpty) =
      (css.filter fun cs => !cs.all isEmpty).map (write schema) := by
    rw [List.filter_map]
    congr 2
    funext cs
    exact congrArg (!·) (all_isEmpty_write schema cs)
  rw [spaced, Dialect.spaced, hf]
  cases css.filter fun cs => !cs.all isEmpty with
  | nil => rfl
  | cons cs css =>
      rw [List.map_cons, intercalate_cons, intercalate_cons, write_append, List.flatMap_map,
        write, write, List.flatMap_assoc]
      congr 1

theorem tables_spaced (css : List (List Cell)) : tables (spaced css) = css.flatMap tables := by
  have hf : css.flatMap tables = (css.filter fun cs => !cs.all isEmpty).flatMap tables := by
    induction css with
    | nil => rfl
    | cons cs css ih =>
        rw [List.flatMap_cons, ih, List.filter_cons]
        by_cases he : cs.all isEmpty = true
        · rw [tables_eq_nil_of_isEmpty he, he]
          rfl
        · rw [Bool.eq_false_iff.mpr he]
          rfl
  rw [spaced, hf]
  cases css.filter fun cs => !cs.all isEmpty with
  | nil => rfl
  | cons cs css =>
      rw [intercalate_cons, tables_append, List.flatMap_cons, tables, tables,
        List.filterMap_flatMap]
      rfl

end Cell

/-- Stretches of text, each with the quoted name of a table behind it and a schema and a dot before
that name if there is one, and the text behind the last name. -/
def Dialect.qualified (d : Dialect) (schema : Option String) :
    List (String × String) → String → String
  | [], last => last
  | (s, t) :: stretches, last =>
    s ++ ((schema.map fun x => d.identifier x ++ ".").getD "" ++ d.identifier t) ++
      d.qualified schema stretches last

theorem Dialect.append_qualified (d : Dialect) (s : String) (stretches : List (String × String))
    (last : String) :
    ∃ stretches' last', stretches'.map Prod.snd = stretches.map Prod.snd ∧
      ∀ schema, s ++ d.qualified schema stretches last =
        d.qualified schema stretches' last' := by
  cases stretches with
  | nil => exact ⟨[], s ++ last, rfl, fun _ => rfl⟩
  | cons x stretches =>
      refine ⟨(s ++ x.1, x.2) :: stretches, last, rfl, fun schema => ?_⟩
      simp only [qualified, String.append_assoc]

theorem Piece.write_cons (d : Dialect) (k : Nat) (p : Piece) :
    ∃ s j, ∀ ps, write d k (p :: ps) = s ++ write d j ps := by
  cases p <;> exact ⟨_, _, fun _ => rfl⟩

/-- The stretches of text around the names of tables are the same for all schemas. -/
theorem Cell.write_eq_qualified (d : Dialect) (k : Nat) (cs : List Cell) :
    ∃ stretches last, stretches.map Prod.snd = tables cs ∧
      ∀ schema, Piece.write d k (write schema cs) = d.qualified schema stretches last := by
  induction cs generalizing k with
  | nil => exact ⟨[], "", rfl, fun _ => rfl⟩
  | cons c cs ih =>
      cases c with
      | piece p =>
          obtain ⟨s, j, hs⟩ := Piece.write_cons d k p
          obtain ⟨stretches, last, ht, hw⟩ := ih j
          obtain ⟨stretches', last', ht', hw'⟩ := d.append_qualified s stretches last
          exact ⟨stretches', last', ht'.trans ht, fun schema => by
            rw [← hw', ← hw, ← hs]
            rfl⟩
      | table t =>
          obtain ⟨stretches, last, ht, hw⟩ := ih k
          refine ⟨("", t) :: stretches, last, congrArg (t :: ·) ht, fun schema => ?_⟩
          rw [Dialect.qualified, ← hw]
          cases schema <;> simp [write, pieces, Piece.write, String.append_assoc]

theorem Cell.boundValues_write (schema : Option String) (cs : List Cell) :
    Piece.boundValues (write schema cs) = Piece.boundValues (write none cs) := by
  rw [Piece.boundValues, Piece.boundValues, write, write, List.filterMap_flatMap,
    List.filterMap_flatMap]
  apply List.flatMap_congr
  intro c _
  cases c with
  | piece p => rfl
  | table t => cases schema <;> rfl

/-! ## The tables that get the schema -/

namespace Node

/-- The name of a table that has no schema and is not bound. -/
def openTable? (bound : List String) : Node → Option String
  | .table t => if t.schema = none ∧ t.name ∉ bound then some t.name else none
  | _ => none

/-- The names of the tables that a dialect writes of a tree, in the order of the walk, as far as
they have no schema and no statement around them binds their name. -/
def openTables (d : Dialect) (bound : List String) (n : Node) : List String :=
  (n.openTable? bound).toList ++
    (n.parts d).attach.flatMap fun m => m.1.openTables d (n.bindings ++ bound)
termination_by sizeOf n
decreasing_by exact Node.sizeOf_parts m.2

theorem openTables_eq (d : Dialect) (bound : List String) (n : Node) :
    n.openTables d bound = (n.openTable? bound).toList ++
      (n.parts d).flatMap (openTables d (n.bindings ++ bound)) := by
  rw [openTables]
  simp [List.flatMap_subtype]

theorem openTables_identifier (d : Dialect) (bound : List String) (i : Identifier) :
    (Node.identifier i).openTables d bound = [] := by
  rw [openTables_eq]
  rfl

theorem openTables_table (d : Dialect) (bound : List String) (t : Table) :
    (Node.table t).openTables d bound =
      if t.schema = none ∧ t.name ∉ bound then [t.name] else [] := by
  have hp : ((Node.table t).parts d).flatMap (openTables d ((Node.table t).bindings ++ bound)) =
      [] := by
    cases h : t.schema <;> simp [parts, h, openTables_identifier]
  rw [openTables_eq, hp, openTable?, List.append_nil]
  split <;> rfl

theorem openTables_of_kind {d : Dialect} {n : Node} (h : n.kind ≠ .table) (bound : List String) :
    n.openTables d bound = (n.parts d).flatMap (openTables d (n.bindings ++ bound)) := by
  rw [openTables_eq]
  cases n
  case table => exact absurd rfl h
  all_goals rfl

end Node

/-! ## Renderings that differ by a schema -/

/-- A result without a schema and the results under each schema: all the same failure, or all
written from one form, which has some tables. -/
inductive Agree {α β : Type} (write : Option String → α → β) (tables : α → List String) :
    List String → Except Error β → (Identifier → Except Error β) → Prop
  | refused (e : Error) (ts : List String) : Agree write tables ts (.error e) fun _ => .error e
  | written (a : α) :
      Agree write tables (tables a) (.ok (write none a)) fun s => .ok (write (some s.name) a)

namespace Agree

variable {α β : Type} {write : Option String → α → β} {tables : α → List String}
  {ts us : List String} {x : Except Error β} {y : Identifier → Except Error β}

theorem refused_or_written (h : Agree write tables ts x y) :
    (∃ e, x = .error e ∧ ∀ s, y s = .error e) ∨
      ∃ a, tables a = ts ∧ x = .ok (write none a) ∧ ∀ s, y s = .ok (write (some s.name) a) := by
  cases h with
  | refused e => exact .inl ⟨e, rfl, fun _ => rfl⟩
  | written a => exact .inr ⟨a, rfl, rfl, fun _ => rfl⟩

theorem congr_tables (h : Agree write tables ts x y) (ht : ∀ b, x = .ok b → ts = us) :
    Agree write tables us x y := by
  cases h with
  | refused e => exact .refused e us
  | written a => exact ht _ rfl ▸ .written a

theorem map {α' β' : Type} {write' : Option String → α' → β'} {tables' : α' → List String}
    {f : α → α'} {g : β → β'} (h : Agree write tables ts x y)
    (hw : ∀ s a, g (write s a) = write' s (f a)) (ht : ∀ a, tables' (f a) = tables a) :
    Agree write' tables' ts (do return g (← x)) fun s => do return g (← y s) := by
  cases h with
  | refused e => exact .refused e ts
  | written a =>
      have ha : Agree write' tables' (tables' (f a)) _ _ := .written (f a)
      simp only [ht, ← hw] at ha
      exact ha

theorem map₂ {α' β' α'' β'' : Type} {write' : Option String → α' → β'}
    {tables' : α' → List String} {write'' : Option String → α'' → β''}
    {tables'' : α'' → List String} {x' : Except Error β'} {y' : Identifier → Except Error β'}
    {f : α → α' → α''} {g : β → β' → β''}
    (h : Agree write tables ts x y) (h' : Agree write' tables' us x' y')
    (hw : ∀ s a b, g (write s a) (write' s b) = write'' s (f a b))
    (ht : ∀ a b, tables'' (f a b) = tables a ++ tables' b) :
    Agree write'' tables'' (ts ++ us) (do return g (← x) (← x'))
      fun s => do return g (← y s) (← y' s) := by
  cases h with
  | refused e => exact .refused e _
  | written a =>
      cases h' with
      | refused e => exact .refused e _
      | written b =>
          have hab : Agree write'' tables'' (tables'' (f a b)) _ _ := .written (f a b)
          simp only [ht, ← hw] at hab
          exact hab

end Agree

section Rendering

variable {d : Dialect} {b : Bool}

/-- Renderings that differ only by the schema before some names of tables. -/
abbrev Rendering.Agree (ts : List String) (r : Rendering) (r' : Identifier → Rendering) : Prop :=
  SqlTree.Agree Cell.write Cell.tables ts r r'

theorem Rendering.agree_piece (p : Piece) : Rendering.Agree [] (.ok [p]) fun _ => .ok [p] :=
  .written [Cell.piece p]

theorem Rendering.agree_append {ts us : List String} {r q : Rendering}
    {r' q' : Identifier → Rendering} (hr : Rendering.Agree ts r r') (hq : Rendering.Agree us q q') :
    Rendering.Agree (ts ++ us) (r.append q) fun s => (r' s).append (q' s) :=
  hr.map₂ hq (fun s cs es => (Cell.write_append s cs es).symm) Cell.tables_append

theorem Rendering.agree_parenthesized {ts : List String} {r : Rendering}
    {r' : Identifier → Rendering} (w : Bool) (h : Rendering.Agree ts r r') :
    Rendering.Agree ts (.parenthesized w r) fun s => .parenthesized w (r' s) := by
  cases w with
  | false => exact h
  | true =>
      have hp := agree_append (agree_piece (.text "(")) (agree_append h (agree_piece (.text ")")))
      rw [List.nil_append, List.append_nil] at hp
      simp only [parenthesized_true]
      exact hp

theorem Dialect.agree_gate (k : Kind) {ts : List String} {r : Rendering}
    {r' : Identifier → Rendering} (h : Rendering.Agree ts r r') :
    Rendering.Agree ts (d.gate k r) fun s => d.gate k (r' s) := by
  simp only [gate]
  split
  · exact h
  · exact .refused _ ts

variable {g : Identifier → Node → Node} {names : Node → List String}

theorem Item.agree_renderAll {is : List Item}
    (h : ∀ m ∈ parts is, Rendering.Agree (names m) (m.render d b) fun s => (g s m).render d b) :
    Rendering.Agree ((parts is).flatMap names) (renderAll d b is)
      fun s => renderAll d b (is.map (mapParts (g s))) := by
  induction is with
  | nil => exact .written []
  | cons i is ih =>
      simp only [List.map_cons, renderAll_cons]
      cases i with
      | piece p => exact Rendering.agree_append (Rendering.agree_piece p) (ih h)
      | part n =>
          rw [parts_part, List.forall_mem_cons] at h
          rw [parts_part, List.flatMap_cons]
          exact Rendering.agree_append h.1 (ih h.2)
      | refuse e => exact .refused e _

/-- What holds for the parts of a layout holds for the layout. -/
theorem Layout.agree_render {l : Layout}
    (h : ∀ m ∈ Item.parts l.all,
      Rendering.Agree (names m) (m.render d b) fun s => (g s m).render d b) :
    Rendering.Agree ((Item.parts l.all).flatMap names) (l.render d b)
      fun s => (l.map (Item.mapParts (g s))).render d b := by
  cases l with
  | items is => exact Item.agree_renderAll h
  | clauses cs =>
      have hc : Agree (fun s => List.map (Cell.write s)) (List.flatMap Cell.tables)
          ((Item.parts (Layout.clauses cs).all).flatMap names)
          (cs.mapM fun c => Item.renderAll d b c.2)
          fun s => (cs.map fun c => (c.1, c.2.map (Item.mapParts (g s)))).mapM
            fun c => Item.renderAll d b c.2 := by
        induction cs with
        | nil => exact .written []
        | cons c cs ih =>
            simp only [all, List.flatMap_cons, Item.parts_append, List.forall_mem_append,
              List.flatMap_append] at h ih ⊢
            simp only [List.map_cons, List.mapM_cons]
            exact (Item.agree_renderAll h.1).map₂ (f := List.cons) (ih h.2) (fun _ _ _ => rfl)
              fun _ _ => List.flatMap_cons
      exact hc.map (fun s css => (Cell.write_spaced s css).symm) Cell.tables_spaced

end Rendering

namespace Node

/-- Every rule but the one for tables writes a node of a qualified tree as it writes the node of
the tree itself. -/
theorem layout_edit_qualifying (schema : Identifier) (bound : List String) (d : Dialect) {n : Node}
    (h : n.kind ≠ .table) :
    (n.edit (.qualifying schema) bound).layout d =
      (n.layout d).map (Item.mapParts (edit (.qualifying schema) (n.bindings ++ bound))) := by
  by_cases hv : n.kind = .value
  · cases n
    case value v immediate => cases immediate <;> rfl
    all_goals cases hv
  · refine layout_edit d (Edit.keepsNames_qualifying schema) h hv (Item.follows_mapParts _)
      (fun _ => rfl) ?_
    rintro m -
    cases m <;> rfl

theorem agree_render_table (d : Dialect) (bound : List String) (b : Bool) (t : Table) :
    Rendering.Agree ((Node.table t).openTables d bound) ((Node.table t).render d b)
      fun s => ((Node.table t).edit (.qualifying s) bound).render d b := by
  simp only [openTables_table, edit, Edit.table_qualifying]
  by_cases h : t.schema = none ∧ t.name ∉ bound
  · simp only [if_pos h, render]
    refine Dialect.agree_gate .table ?_
    simp only [h.1, Table.withSchema, Dialect.renderIdentifier, Dialect.gate]
    by_cases hi : d.supports .identifier = true
    · simp only [hi, if_true]
      exact .written [Cell.table t.name]
    · simp only [hi]
      exact .refused _ _
  · simp only [if_neg h]
    cases (Node.table t).render d b with
    | error e => exact .refused e []
    | ok ps =>
        induction ps with
        | nil => exact .written []
        | cons p ps ih => exact Rendering.agree_append (Rendering.agree_piece p) ih

/-- A tree and the tree under each schema are refused alike, or written alike but for the schema
before the names of the open tables. -/
theorem agree_render (d : Dialect) (bound : List String) (nested : Bool) (n : Node) :
    Rendering.Agree (n.openTables d bound) (n.render d nested)
      fun s => (n.edit (.qualifying s) bound).render d nested := by
  induction n using Node.induction_parts d generalizing bound nested with
  | step n ih =>
      by_cases hk : n.kind = .table
      · cases n
        case table t => exact agree_render_table d bound nested t
        all_goals cases hk
      · have hl := Layout.agree_render (l := n.layout d) (b := n.kind.delimits) fun m hm =>
          ih m (mem_parts_of_layout hm) (n.bindings ++ bound) n.kind.delimits
        simp only [← layout_edit_qualifying _ bound d hk] at hl
        -- A layout that is written has the parts of the node.
        have hn := hl.congr_tables fun ps hps => by
          rw [parts_layout (Layout.not_refuses_of_render hps), ← openTables_of_kind hk]
        simp only [render_eq d nested, kind_edit]
        exact Dialect.agree_gate n.kind (Rendering.agree_parenthesized _ hn)

/-- Qualifying changes neither what a dialect accepts nor what is bound. Either the dialect refuses
a tree and, with the same error, the tree under any schema; or it writes stretches of text, each
with the name of a table behind it, and the tree under a schema differs by the schema and a dot
before each of these names, which are those of the tables that get the schema. -/
theorem compile_qualify (d : Dialect) (n : Node) :
    (∃ e, n.compile d = .error e ∧
      ∀ schema, ∃ m, n.qualify schema = .ok m ∧ m.compile d = .error e) ∨
    ∃ stretches last parameters, stretches.map Prod.snd = n.openTables d [] ∧
      n.compile d = .ok ⟨d.qualified none stretches last, parameters⟩ ∧
      ∀ schema, ∃ m, n.qualify schema = .ok m ∧
        m.compile d = .ok ⟨d.qualified (some schema.name) stretches last, parameters⟩ := by
  rcases (agree_render d [] false n).refused_or_written with ⟨e, hn, hq⟩ | ⟨cs, ht, hn, hq⟩
  · refine .inl ⟨e, by rw [compile, hn]; rfl, fun schema => ⟨_, qualify_eq schema n, ?_⟩⟩
    rw [compile, hq]
    rfl
  · obtain ⟨stretches, last, hs, hw⟩ := Cell.write_eq_qualified d 1 cs
    have hc (s : Option String) : Compiled.ofPieces d (Cell.write s cs) =
        ⟨d.qualified s stretches last, Piece.boundValues (Cell.write none cs)⟩ := by
      rw [← hw, ← Cell.boundValues_write s]
      rfl
    refine .inr ⟨stretches, last, Piece.boundValues (Cell.write none cs), hs.trans ht, ?_,
      fun schema => ⟨_, qualify_eq schema n, ?_⟩⟩
    · rw [compile, hn, Except.map, hc]
    · rw [compile, hq, Except.map, hc]

example :
    ((Node.delete
      { fromItems := [.table ⟨none, ⟨"users"⟩⟩]
        usingItems := some [.table ⟨some ⟨"log"⟩, ⟨"lines"⟩⟩, .table ⟨none, ⟨"posts"⟩⟩] }).qualify
          ⟨"app"⟩).bind (compile Engine.postgres.dialect) =
      .ok ⟨Engine.postgres.dialect.qualified (some "app")
        [("DELETE FROM ", "users"), (" USING \"log\".\"lines\", ", "posts")] "", []⟩ := by
  cbv

end Node

end SqlTree
