import Mathlib
import SqlTree.Dialect.Engine
import SqlTree.Proofs.Emission.Leaves
import SqlTree.Sql.Compile

/-! # Placeholders and parameters

The text of a compiled tree is a row of verbatim stretches with a placeholder between each two, the
first placeholder for the first parameter and so on. The stretches do not depend on how the
dialect writes placeholders, so no placeholder hides in them. -/

namespace SqlTree

/-- The dialect with another way to write placeholders. -/
def Dialect.withPlaceholder (d : Dialect) (p : Placeholder) : Dialect := { d with placeholder := p }

/-! ## Renderings do not know the placeholder -/

theorem Node.layout_withPlaceholder (d : Dialect) (p : Placeholder) (n : Node) :
    n.layout (d.withPlaceholder p) = n.layout d := by
  cases n
  case operator op => cases op <;> rfl
  all_goals rfl

theorem Item.renderAll_congr {d e : Dialect} {b : Bool} {is : List Item}
    (h : ∀ m ∈ parts is, m.render d b = m.render e b) : renderAll d b is = renderAll e b is := by
  induction is with
  | nil => rfl
  | cons i is ih =>
      rw [renderAll_cons, renderAll_cons]
      cases i with
      | piece q => rw [ih h]; rfl
      | part n =>
          rw [parts_part, List.forall_mem_cons] at h
          rw [ih h.2, render_part, render_part, h.1]
      | refuse e => rfl

theorem Layout.render_congr {d e : Dialect} {b : Bool} {l : Layout}
    (h : ∀ m ∈ Item.parts l.all, m.render d b = m.render e b) : l.render d b = l.render e b := by
  cases l with
  | items is => exact Item.renderAll_congr h
  | clauses cs =>
      have hc : ∀ c ∈ cs, Item.renderAll d b c.2 = Item.renderAll e b c.2 := fun c hc =>
        Item.renderAll_congr fun m hm => h m (parts_subset_of_mem hc hm)
      rw [render, render, mapM_congr hc]

/-- Dialects that check and lay out nodes alike render alike. -/
theorem Node.render_congr {d e : Dialect} (hg : ∀ k r, e.gate k r = d.gate k r)
    (hl : ∀ n : Node, n.layout e = n.layout d) (nested : Bool) (n : Node) :
    n.render e nested = n.render d nested := by
  induction n using Node.induction_parts d generalizing nested with
  | step n ih =>
      rw [render_eq, render_eq, hl, hg,
        Layout.render_congr fun m hm => ih m (mem_parts_of_layout hm) _]

theorem Node.render_withPlaceholder (d : Dialect) (p : Placeholder) (nested : Bool) (n : Node) :
    n.render (d.withPlaceholder p) nested = n.render d nested :=
  render_congr (d := d) (e := d.withPlaceholder p) (fun _ _ => rfl) (layout_withPlaceholder d p)
    nested n

mutual

/-- Dialects that write truth values and strings alike write all literals alike. -/
theorem Dialect.literal_congr {d e : Dialect} (hb : ∀ b, e.boolLiteral b = d.boolLiteral b)
    (hs : ∀ s, e.stringLiteral s = d.stringLiteral s) : ∀ v, e.literal v = d.literal v
  | .null | .int _ | .float _ | .bytes _ => rfl
  | .bool b => hb b
  | .text s => hs s
  | .uuid u => hs u.text
  | .instant t => hs (t.text "+00:00")
  | .json j => hs j.render
  | .array items => by rw [literal, literals_congr hb hs items, literal]
termination_by structural v => v

theorem Dialect.literals_congr {d e : Dialect} (hb : ∀ b, e.boolLiteral b = d.boolLiteral b)
    (hs : ∀ s, e.stringLiteral s = d.stringLiteral s) : ∀ vs, e.literals vs = d.literals vs
  | [] => rfl
  | v :: vs => by rw [literals, literal_congr hb hs v, literals_congr hb hs vs, literals]
termination_by structural vs => vs

end

theorem Dialect.literal_withPlaceholder (d : Dialect) (p : Placeholder) (v : Value) :
    (d.withPlaceholder p).literal v = d.literal v :=
  literal_congr (d := d) (e := d.withPlaceholder p) (fun _ => rfl) (fun _ => rfl) v

/-! ## Stretches between placeholders -/

/-- Stretches of text with a placeholder between each two, the first for the given position. -/
def Placeholder.weave (p : Placeholder) : Nat → List String → String
  | _, [] => ""
  | _, [s] => s
  | k, s :: ss => s ++ p.text k ++ weave p (k + 1) ss

/-- The values that pieces bind. -/
def Piece.boundValues (ps : List Piece) : List Value := ps.filterMap bound?

theorem Piece.boundValues_leaves (ps : List Piece) : boundValues (leaves ps) = boundValues ps := by
  rw [boundValues, leaves, List.filterMap_filter, boundValues]
  congr 1
  funext p
  cases p <;> rfl

theorem Node.boundValues_leaves (d : Dialect) (n : Node) :
    Piece.boundValues (n.leaves d) = n.boundValues d := by
  rw [Piece.boundValues, leaves, List.filterMap_filterMap, boundValues]
  congr 1
  funext m
  cases m
  case value v immediate => cases immediate <;> rfl
  all_goals rfl

theorem Node.boundValues_render {d : Dialect} {n : Node} {nested : Bool} {ps : List Piece}
    (h : n.render d nested = .ok ps) : Piece.boundValues ps = n.boundValues d := by
  rw [← Piece.boundValues_leaves, leaves_render h, boundValues_leaves]

/-- Each bound value ends a stretch, and the stretches are the same for all placeholders. -/
theorem Piece.write_eq_weave (d : Dialect) (ps : List Piece) :
    ∃ s ss, ss.length = (boundValues ps).length ∧
      ∀ p k, write (d.withPlaceholder p) k ps = p.weave k (s :: ss) := by
  induction ps with
  | nil => exact ⟨"", [], rfl, fun p k => rfl⟩
  | cons q ps ih =>
      obtain ⟨s, ss, hl, hw⟩ := ih
      have extend (t : String) (p : Placeholder) (k : Nat) :
          t ++ p.weave k (s :: ss) = p.weave k ((t ++ s) :: ss) := by
        cases ss <;> simp [Placeholder.weave, String.append_assoc]
      cases q with
      | text t => exact ⟨t ++ s, ss, hl, fun p k => by rw [write, hw, extend]⟩
      | name t =>
          refine ⟨d.identifier t ++ s, ss, hl, fun p k => ?_⟩
          rw [write, hw, ← extend]
          rfl
      | literal v =>
          refine ⟨d.literal v ++ s, ss, hl, fun p k => ?_⟩
          rw [write, hw, Dialect.literal_withPlaceholder, extend]
      | bound v =>
          refine ⟨"", s :: ss, congrArg (· + 1) hl, fun p k => ?_⟩
          have hp : p.weave k ("" :: s :: ss) = "" ++ p.text k ++ p.weave (k + 1) (s :: ss) := rfl
          rw [write, hw, hp, String.empty_append]
          rfl

/-! ## Compiled trees -/

theorem Node.compile_eq_ok {d : Dialect} {n : Node} {c : Compiled} :
    n.compile d = .ok c ↔ ∃ ps, n.render d false = .ok ps ∧ c = Compiled.ofPieces d ps := by
  rw [compile]
  cases n.render d false <;> simp [Except.map, eq_comm]

theorem Node.parameters_eq {d : Dialect} {n : Node} {c : Compiled} (h : n.compile d = .ok c) :
    c.parameters = n.boundValues d := by
  obtain ⟨ps, hps, rfl⟩ := compile_eq_ok.mp h
  exact boundValues_render hps

/-- The parameters of a compiled tree are the values its walk binds, in the order of the walk.
Its text is a row of stretches with the placeholders of the first, second and so on up to the last
parameter between them, and the stretches are those of any way to write placeholders. -/
theorem Node.compile_aligned {d : Dialect} {n : Node} {c : Compiled} (h : n.compile d = .ok c) :
    c.parameters = n.boundValues d ∧
      ∃ stretches : List String, stretches.length = c.parameters.length + 1 ∧
        c.sql = d.placeholder.weave 1 stretches ∧
        ∀ p, n.compile (d.withPlaceholder p) = .ok ⟨p.weave 1 stretches, c.parameters⟩ := by
  obtain ⟨ps, hps, rfl⟩ := compile_eq_ok.mp h
  obtain ⟨s, ss, hl, hw⟩ := Piece.write_eq_weave d ps
  refine ⟨boundValues_render hps, s :: ss, congrArg (· + 1) hl, hw d.placeholder 1, fun p => ?_⟩
  rw [compile, render_withPlaceholder, hps]
  exact congrArg Except.ok (congrArg (Compiled.mk · _) (hw p 1))

/-- An update with a raw text and two clauses that another dialect writes in another order. -/
def Node.updateSample : Node :=
  .update
    { table := .table ⟨none, ⟨"t"⟩⟩
      assignments := some
        [⟨⟨⟨"a"⟩⟩, .raw ["f(", ", ", ")"] [.value (.int 1) false, .value (.int 2) false]⟩]
      whereClause := some (.binary (.column ⟨⟨"b"⟩⟩) .eq (.value (.text "?") false))
      output := some [.value (.int 3) false] }

theorem Node.compile_aligned_updateSample :
    updateSample.compile Engine.sqlserver.dialect = .ok
      ⟨"UPDATE [t] SET [a] = f(@p1, @p2) OUTPUT @p3 WHERE [b] = @p4",
        [.int 1, .int 2, .int 3, .text "?"]⟩ ∧
    [.int 1, .int 2, .int 3, .text "?"] = updateSample.boundValues Engine.sqlserver.dialect ∧
    ∃ stretches : List String, stretches.length = 4 + 1 ∧
      "UPDATE [t] SET [a] = f(@p1, @p2) OUTPUT @p3 WHERE [b] = @p4" =
        Placeholder.weave (.numbered "@p") 1 stretches ∧
      ∀ p, updateSample.compile (Engine.sqlserver.dialect.withPlaceholder p) =
        .ok ⟨p.weave 1 stretches, [.int 1, .int 2, .int 3, .text "?"]⟩ := by
  have h : updateSample.compile Engine.sqlserver.dialect = .ok
      ⟨"UPDATE [t] SET [a] = f(@p1, @p2) OUTPUT @p3 WHERE [b] = @p4",
        [.int 1, .int 2, .int 3, .text "?"]⟩ := by cbv
  exact ⟨h, compile_aligned h⟩

end SqlTree
