import SqlTree.Dialect.Engine
import SqlTree.Proofs.Building.WellFormed
import SqlTree.Proofs.Emission.Alignment
import SqlTree.Proofs.Emission.MapValues

/-! # Inlined values

Making every value of a tree immediate puts the literal of each parameter in the place of its
placeholder and changes nothing else. The one tree for which this fails negates a bound value: a
literal behind a minus is put in parentheses. -/

namespace SqlTree

/-! ## Inlined trees -/

/-- Every value is written as a literal. -/
def Value.inline (v : Value) (_immediate : Bool) : Value × Bool := (v, true)

/-- The tree with every value made immediate. -/
def Node.inlined (n : Node) : Node := n.mapValues Value.inline

theorem Node.keepsAtom_inline {n : Node} (h : ∀ v, n ≠ .unary .neg (.value v false)) :
    n.KeepsAtom Value.inline := by
  intro m hn
  cases m
  case value v immediate =>
    cases immediate
    case false => exact absurd hn (h v)
    case true => rfl
  all_goals rfl

theorem Node.render_inlined {d : Dialect} {n : Node}
    (h : ∀ v, .unary .neg (.value v false) ∉ n.nodes) (nested : Bool) :
    n.inlined.render d nested = (n.render d nested).map (·.map (Piece.mapValues Value.inline)) := by
  apply render_mapValues
  intro m hm
  apply keepsAtom_inline
  intro v hv
  exact h v (hv ▸ walk_subset_nodes d n hm)

/-! ## Stretches and gaps -/

/-- Stretches of text with one of the given texts between each two. -/
def fillGaps : List String → List String → String
  | s :: ss, g :: gs => s ++ g ++ fillGaps ss gs
  | s :: _, [] => s
  | [], _ => ""

theorem fillGaps_cons (t s : String) (ss gs : List String) :
    t ++ fillGaps (s :: ss) gs = fillGaps ((t ++ s) :: ss) gs := by
  cases gs with
  | nil => rfl
  | cons g gs => rw [fillGaps, fillGaps, String.append_assoc, String.append_assoc,
      String.append_assoc]

/-- The placeholders of a number of parameters, the first for the given position. -/
def Placeholder.texts (p : Placeholder) (k count : Nat) : List String :=
  (List.range' k count).map p.text

theorem Placeholder.texts_succ (p : Placeholder) (k count : Nat) :
    p.texts k (count + 1) = p.text k :: p.texts (k + 1) count := by
  rw [texts, List.range'_succ, List.map_cons, texts]

/-- Pieces leave stretches of text that depend neither on the placeholders nor on whether the
values between them are bound. -/
theorem Piece.write_eq_fillGaps (d : Dialect) (ps : List Piece) :
    ∃ s ss, ss.length = (boundValues ps).length ∧
      (∀ p k, write (d.withPlaceholder p) k ps =
        fillGaps (s :: ss) (p.texts k (boundValues ps).length)) ∧
      ∀ k, write d k (ps.map (mapValues Value.inline)) =
        fillGaps (s :: ss) ((boundValues ps).map d.literal) := by
  induction ps with
  | nil => exact ⟨"", [], rfl, fun p k => rfl, fun k => rfl⟩
  | cons q ps ih =>
      obtain ⟨s, ss, hl, hb, hi⟩ := ih
      cases q with
      | text t =>
          exact ⟨t ++ s, ss, hl,
            fun p k => (congrArg (t ++ ·) (hb p k)).trans (fillGaps_cons ..),
            fun k => (congrArg (t ++ ·) (hi k)).trans (fillGaps_cons ..)⟩
      | name t =>
          exact ⟨d.identifier t ++ s, ss, hl,
            fun p k => (congrArg (d.identifier t ++ ·) (hb p k)).trans (fillGaps_cons ..),
            fun k => (congrArg (d.identifier t ++ ·) (hi k)).trans (fillGaps_cons ..)⟩
      | literal v =>
          refine ⟨d.literal v ++ s, ss, hl, fun p k => ?_,
            fun k => (congrArg (d.literal v ++ ·) (hi k)).trans (fillGaps_cons ..)⟩
          rw [write, hb, Dialect.literal_withPlaceholder, fillGaps_cons]
          rfl
      | bound v =>
          have hv : boundValues (.bound v :: ps) = v :: boundValues ps := rfl
          refine ⟨"", s :: ss, congrArg (· + 1) hl, fun p k => ?_, fun k => ?_⟩
          · rw [write, hb, hv, List.length_cons, Placeholder.texts_succ, fillGaps,
              String.empty_append]
            rfl
          · exact (congrArg (d.literal v ++ ·) (hi k)).trans
              (congrArg (· ++ _) String.empty_append.symm)

/-! ## Compiled trees -/

/-- A tree that negates no bound value and the tree with its values inlined are refused with the
same error, or both compile. Then the inlined tree has no parameters, and its text is that of the
tree with the literal of each parameter in the place of its placeholder: the texts consist of the
same stretches, whatever the placeholders are. -/
theorem Node.compile_inlined {n : Node} (h : ∀ v, .unary .neg (.value v false) ∉ n.nodes)
    (d : Dialect) :
    (∃ e, n.compile d = .error e ∧ n.inlined.compile d = .error e) ∨
      ∃ stretches params, stretches.length = params.length + 1 ∧
        n.compile d =
          .ok ⟨fillGaps stretches (d.placeholder.texts 1 params.length), params⟩ ∧
        (∀ p, n.compile (d.withPlaceholder p) =
          .ok ⟨fillGaps stretches (p.texts 1 params.length), params⟩) ∧
        n.inlined.compile d = .ok ⟨fillGaps stretches (params.map d.literal), []⟩ := by
  have hi := render_inlined (d := d) h false
  cases hr : n.render d false with
  | error e =>
      refine .inl ⟨e, ?_, ?_⟩
      · rw [compile, hr]
        rfl
      · rw [compile, hi, hr]
        rfl
  | ok ps =>
      obtain ⟨s, ss, hl, hb, hw⟩ := Piece.write_eq_fillGaps d ps
      have hc (p : Placeholder) : n.compile (d.withPlaceholder p) =
          .ok ⟨fillGaps (s :: ss) (p.texts 1 (Piece.boundValues ps).length),
            Piece.boundValues ps⟩ := by
        rw [compile, render_withPlaceholder, hr, ← hb]
        rfl
      have hn : Piece.boundValues (ps.map (Piece.mapValues Value.inline)) = [] := by
        rw [Piece.boundValues, List.filterMap_map, List.filterMap_eq_nil_iff]
        intro p _
        cases p <;> rfl
      refine .inr ⟨s :: ss, Piece.boundValues ps, congrArg (· + 1) hl, hc d.placeholder, hc, ?_⟩
      rw [compile, hi, hr, ← hw 1, ← hn]
      rfl

/-- A query with bound values of several types, one of them below a minus in parentheses, and a
literal. -/
def Node.inlineSample : Node :=
  .select
    { selections := some [.unary .neg (.parens (.value (.int 5) false)), .value (.bool true) true]
      fromItems := some [.table ⟨none, ⟨"t"⟩⟩]
      whereClause := some (.binary (.column ⟨⟨"a"⟩⟩) .eq (.value (.text "it\x27s") false)) }

theorem Node.compile_inlined_inlineSample :
    (∀ v, .unary .neg (.value v false) ∉ inlineSample.nodes) ∧
    inlineSample.compile Engine.mysql.dialect = .ok
      ⟨"SELECT -(?), 1 FROM \x60t\x60 WHERE \x60a\x60 = ?", [.int 5, .text "it\x27s"]⟩ ∧
    inlineSample.inlined.compile Engine.mysql.dialect = .ok
      ⟨"SELECT -(5), 1 FROM \x60t\x60 WHERE \x60a\x60 = \x27it\x27\x27s\x27", []⟩ ∧
    ((∃ e, inlineSample.compile Engine.mysql.dialect = .error e ∧
        inlineSample.inlined.compile Engine.mysql.dialect = .error e) ∨
      ∃ stretches params, stretches.length = params.length + 1 ∧
        inlineSample.compile Engine.mysql.dialect =
          .ok ⟨fillGaps stretches (Placeholder.texts .question 1 params.length), params⟩ ∧
        (∀ p, inlineSample.compile (Engine.mysql.dialect.withPlaceholder p) =
          .ok ⟨fillGaps stretches (p.texts 1 params.length), params⟩) ∧
        inlineSample.inlined.compile Engine.mysql.dialect =
          .ok ⟨fillGaps stretches (params.map Engine.mysql.dialect.literal), []⟩) := by
  have hn : ∀ v, .unary .neg (.value v false) ∉ inlineSample.nodes := by
    intro v
    simp [inlineSample, nodes_eq, children, parts, Named.all, Select.clauseParts]
  have ho : inlineSample.compile Engine.mysql.dialect = .ok
      ⟨"SELECT -(?), 1 FROM \x60t\x60 WHERE \x60a\x60 = ?", [.int 5, .text "it\x27s"]⟩ := by
    cbv
  have hi : inlineSample.inlined.compile Engine.mysql.dialect = .ok
      ⟨"SELECT -(5), 1 FROM \x60t\x60 WHERE \x60a\x60 = \x27it\x27\x27s\x27", []⟩ := by
    cbv
  exact ⟨hn, ho, hi, compile_inlined hn Engine.mysql.dialect⟩

end SqlTree
