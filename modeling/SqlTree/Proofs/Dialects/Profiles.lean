import SqlTree.Dialect.Profile
import SqlTree.Proofs.Emission.Acceptance

/-! # Profiles

A profile gives the dialect of its engine another name, other kinds and another style. The kinds
decide whether a tree compiles, never what it compiles to. The name is seen in errors only, and
the style only once the pieces of the text are there. -/

namespace SqlTree

/-! ## Kinds -/

/-- The dialect under another name, with syntax for other kinds. -/
def Dialect.gated (d : Dialect) (name : String) (supports : Kind → Bool) : Dialect :=
  { d with name := name, supports := supports }

section Gated

variable {d : Dialect} (name : String) {s : Kind → Bool}

theorem Layout.statement_gated {k : StatementKind} {cs : List (Clause × List Item)}
    (h : (statement d k cs).refuses = false) :
    statement (d.gated name s) k cs = statement d k cs := by
  have ho : (d.gated name s).clauseOrder k = d.clauseOrder k := rfl
  rw [statement] at h ⊢
  rw [statement, ho]
  cases hc : cs.find? fun c => !(d.clauseOrder k).contains c.1 with
  | none => rfl
  | some c =>
      rw [hc] at h
      cases h

/-- The name of a dialect is seen in refusals only. -/
theorem Node.layout_gated {n : Node} (h : (n.layout d).refuses = false) :
    n.layout (d.gated name s) = n.layout d := by
  cases n
  case select q => exact Layout.statement_gated name h
  case delete q => exact Layout.statement_gated name h
  case insert q =>
    have hi : (d.gated name s).insertIgnore = d.insertIgnore := rfl
    rw [layout] at h ⊢
    rw [layout, hi]
    split
    · simp_all [Layout.refuses, Layout.all, Item.isRefusal]
    · split
      · simp_all [Layout.refuses, Layout.all, Item.isRefusal]
      · simp_all [Layout.statement_gated]
  case update q =>
    rw [layout] at h ⊢
    rw [layout]
    rcases ha : q.assignments with _ | _ | ⟨a, as⟩
    · rfl
    · rfl
    · rw [ha] at h
      exact Layout.statement_gated name h
  case explain x =>
    obtain ⟨format, options⟩ := x
    have hx : (d.gated name s).explainSyntax = d.explainSyntax := rfl
    cases format <;> cases options <;> cases he : d.explainSyntax <;>
      simp_all [layout, Explain.layout, Layout.refuses, Layout.all, Item.isRefusal]
  case operator op => cases op <;> rfl
  all_goals rfl

theorem Item.renderAll_of_parts {d e : Dialect} {b : Bool} {is : List Item} {ps : List Piece}
    (h : ∀ m ∈ parts is, ∀ qs, m.render d b = .ok qs → m.render e b = .ok qs)
    (hr : renderAll d b is = .ok ps) : renderAll e b is = .ok ps := by
  induction is generalizing ps with
  | nil => exact hr
  | cons i is ih =>
      obtain ⟨qs, rs, hi, his, rfl⟩ := renderAll_cons_eq_ok.mp hr
      refine renderAll_cons_eq_ok.mpr ⟨qs, rs, ?_, ih ?_ his, rfl⟩
      · cases i with
        | piece p => exact hi
        | part n => exact h n List.mem_cons_self qs hi
        | refuse x => exact hi
      · exact fun m hm => h m (by cases i <;> simp [hm])

theorem Layout.render_of_parts {d e : Dialect} {b : Bool} {l : Layout} {ps : List Piece}
    (h : ∀ m ∈ Item.parts l.all, ∀ qs, m.render d b = .ok qs → m.render e b = .ok qs)
    (hr : l.render d b = .ok ps) : l.render e b = .ok ps := by
  cases l with
  | items is => exact Item.renderAll_of_parts h hr
  | clauses cs =>
      obtain ⟨pss, hc, rfl⟩ := render_clauses_eq_ok.mp hr
      refine render_clauses_eq_ok.mpr ⟨pss, ?_, rfl⟩
      clear hr
      induction hc with
      | nil => exact .nil
      | cons hc _ ih =>
          simp only [all, List.flatMap_cons, Item.parts_append, List.forall_mem_append] at h ih
          exact .cons (Item.renderAll_of_parts h.1 hc) (ih h.2)

/-- What renders still renders, and to the same pieces, where more kinds are supported. -/
theorem Node.render_gated {n : Node} {nested : Bool} {ps : List Piece}
    (hs : ∀ k, d.supports k = true → s k = true) (h : n.render d nested = .ok ps) :
    n.render (d.gated name s) nested = .ok ps := by
  induction n using Node.induction_parts d generalizing nested ps with
  | step n ih =>
      rw [render_eq, Dialect.gate_eq_ok, Rendering.parenthesized_eq_ok] at h ⊢
      obtain ⟨hk, qs, hq, rfl⟩ := h
      refine ⟨hs _ hk, qs, ?_, rfl⟩
      rw [layout_gated name (Layout.not_refuses_of_render hq)]
      exact Layout.render_of_parts (fun m hm rs hr => ih m (mem_parts_of_layout hm) hr) hq

theorem Piece.write_gated (k : Nat) (ps : List Piece) :
    write (d.gated name s) k ps = write d k ps := by
  have hl := Dialect.literal_congr (d := d) (e := d.gated name s) (fun _ => rfl) fun _ => rfl
  induction ps generalizing k with
  | nil => rfl
  | cons p ps ih =>
      cases p with
      | text t => rw [write, ih, write]
      | name t =>
          rw [write, ih, write]
          rfl
      | literal v => rw [write, ih, hl, write]
      | bound v =>
          rw [write, ih, write]
          rfl

theorem Node.compile_gated {n : Node} {c : Compiled}
    (hs : ∀ k, d.supports k = true → s k = true) (h : n.compile d = .ok c) :
    n.compile (d.gated name s) = .ok c := by
  obtain ⟨ps, hp, rfl⟩ := compile_eq_ok.mp h
  refine compile_eq_ok.mpr ⟨ps, render_gated name hs hp, ?_⟩
  rw [Compiled.ofPieces, Compiled.ofPieces, Piece.write_gated]

end Gated

/-! ## Names -/

/-- The error with another dialect to blame. -/
def Error.blaming (dialect : String) : Error → Error
  | .unsupported clause _ => .unsupported clause dialect
  | e => e

section Renamed

variable (d : Dialect) (name : String)

theorem Dialect.objection_renamed (k : Kind) :
    (d.gated name d.supports).objection k = (d.objection k).map (Error.blaming name) := by
  have hs : (d.gated name d.supports).supports = d.supports := rfl
  rw [objection, objection, hs]
  split <;> rfl

theorem Dialect.misplaced_renamed (k : StatementKind) (cs : List Clause) :
    (d.gated name d.supports).misplaced k cs = (d.misplaced k cs).map (Error.blaming name) := by
  rw [misplaced, misplaced, List.map_map]
  rfl

theorem Node.faults_renamed (n : Node) :
    n.faults (d.gated name d.supports) = (n.faults d).map (Error.blaming name) := by
  have hi : (d.gated name d.supports).insertIgnore = d.insertIgnore := rfl
  have hx : (d.gated name d.supports).explainSyntax = d.explainSyntax := rfl
  cases n
  case select q => exact d.misplaced_renamed name .select q.carried
  case delete q => exact d.misplaced_renamed name .delete q.carried
  case insert q =>
    rw [faults, faults, hi, d.misplaced_renamed name, List.map_append, List.map_append]
    congr 2
    · split <;> rfl
    · split <;> rfl
  case update q =>
    rw [faults, faults, d.misplaced_renamed name, List.map_append]
    congr 1
    split <;> rfl
  case explain x =>
    rw [faults, faults, hx]
    split <;> rfl
  case onConflict c =>
    rw [faults, faults]
    split <;> rfl
  all_goals rfl

theorem Node.objections_renamed (n : Node) :
    n.objections (d.gated name d.supports) = (n.objections d).map (Error.blaming name) := by
  induction n using Node.induction_parts d with
  | step n ih =>
      have hp : n.parts (d.gated name d.supports) = n.parts d := by cases n <;> rfl
      rw [objections_eq, objections_eq, hp, faults_renamed, Dialect.objection_renamed,
        List.flatMap_congr fun m hm => ih m (List.mem_of_mem_take hm),
        List.flatMap_congr fun m hm => ih m (List.mem_of_mem_drop hm)]
      simp only [List.map_append, List.map_flatMap]

/-- Under another name a dialect compiles the same trees, and refuses the others for the same
reason. -/
theorem Node.compile_renamed (n : Node) :
    n.compile (d.gated name d.supports) = (n.compile d).mapError (Error.blaming name) := by
  cases h : n.compile d with
  | ok c => exact compile_gated name (fun _ hk => hk) h
  | error e =>
      refine compile_eq_error.mpr ?_
      rw [objections_renamed, List.head?_map, compile_eq_error.mp h]
      rfl

end Renamed

/-! ## Style -/

theorem Node.layout_restyled (d : Dialect) (q : Quotes) (p : Placeholder) (n : Node) :
    n.layout (d.restyled q p) = n.layout d := by
  cases n
  case operator op => cases op <;> rfl
  all_goals rfl

/-- Quotes and placeholders do not decide what compiles, nor with which parameters. -/
theorem Node.map_parameters_restyled (d : Dialect) (q : Quotes) (p : Placeholder) (n : Node) :
    (n.compile (d.restyled q p)).map (·.parameters) = (n.compile d).map (·.parameters) := by
  have hr := render_congr (d := d) (e := d.restyled q p) (fun _ _ => rfl) (layout_restyled d q p)
    false n
  rw [compile, compile, hr]
  cases n.render d false <;> rfl

/-! ## Profiles -/

namespace Profile

theorem dialect_eq_gated {p : Profile} (hq : p.quote = none) (hp : p.placeholder = none) :
    p.dialect = p.base.dialect.gated p.name p.supports := by
  rw [dialect, hq, hp]
  rfl

theorem supports_eq_base {p : Profile} (hs : p.supported = []) (hu : p.unsupported = []) :
    p.supports = p.base.dialect.supports := by
  funext k
  simp [supports, hs, hu]

theorem supports_mono (p : Profile) {s u : List Kind} (hs : p.supported ⊆ s)
    (hu : u ⊆ p.unsupported) {k : Kind} (h : p.supports k = true) :
    Profile.supports { p with supported := s, unsupported := u } k = true := by
  simp only [supports, Bool.and_eq_true, Bool.or_eq_true, Bool.not_eq_true',
    List.contains_eq_mem, decide_eq_true_eq, decide_eq_false_iff_not] at h ⊢
  exact ⟨fun hk => h.1 (hu hk), h.2.imp_left fun hk => hs hk⟩

end Profile

/-- A profile without a style of its own compiles a tree as its engine does, if both do. It still
compiles a tree to the same if it accepts more kinds, or rejects fewer. If it neither adds nor
removes a kind, it fails where its engine does, with an error that differs in the name of the
dialect only. Another style of a profile changes neither what fails, nor how, nor the
parameters. -/
theorem Node.compile_profile (n : Node) (p : Profile) :
    (p.quote = none → p.placeholder = none →
      (∀ a b, n.compile p.base.dialect = .ok a → n.compile p.dialect = .ok b → a = b) ∧
      (p.supported = [] → p.unsupported = [] →
        n.compile p.dialect = (n.compile p.base.dialect).mapError (Error.blaming p.name))) ∧
    (∀ s u, p.supported ⊆ s → u ⊆ p.unsupported → ∀ c, n.compile p.dialect = .ok c →
      n.compile (Profile.dialect { p with supported := s, unsupported := u }) = .ok c) ∧
    ∀ q m, (n.compile (Profile.dialect { p with quote := q, placeholder := m })).map
        (·.parameters) = (n.compile p.dialect).map (·.parameters) := by
  refine ⟨fun hq hp => ⟨fun a b ha hb => ?_, fun hs hu => ?_⟩, fun s u hs hu c hc => ?_,
    fun q m => ?_⟩
  · -- Both results are that of the dialect without any gate.
    rw [Profile.dialect_eq_gated hq hp] at hb
    have ha' := compile_gated p.name (s := fun _ => true) (fun _ _ => rfl) ha
    have hb' := compile_gated p.name (s := fun _ => true) (fun _ _ => rfl) hb
    exact Except.ok.inj (ha'.symm.trans hb')
  · rw [Profile.dialect_eq_gated hq hp, Profile.supports_eq_base hs hu, compile_renamed]
  · exact compile_gated p.name (fun k => p.supports_mono hs hu) hc
  · exact map_parameters_restyled p.dialect _ _ n

/-- A profile over the dialect of MySQL. -/
def Profile.variant (supported unsupported : List Kind) : Profile :=
  { name := "variant", base := .mysql, supported := supported, unsupported := unsupported }

/-- A deletion that may return something. -/
def Node.returningSample (returning : Option (List Node)) : Node :=
  .delete
    { fromItems := [.table ⟨none, ⟨"t"⟩⟩]
      whereClause := some (.binary (.column ⟨⟨"a"⟩⟩) .eq (.value (.int 1) false))
      returning := returning }

theorem Node.compile_profile_returningSample :
    ((Profile.variant [] [.with]).quote = none ∧ (Profile.variant [] [.with]).placeholder = none ∧
      (returningSample none).compile Engine.mysql.dialect =
        .ok ⟨"DELETE FROM `t` WHERE `a` = ?", [.int 1]⟩ ∧
      (returningSample none).compile (Profile.variant [] [.with]).dialect =
        .ok ⟨"DELETE FROM `t` WHERE `a` = ?", [.int 1]⟩) ∧
    ((Profile.variant [] []).supported = [] ∧ (Profile.variant [] []).unsupported = [] ∧
      (returningSample (some [.selectAll])).compile Engine.mysql.dialect =
        .error (.unsupported "Returning" "mysql") ∧
      (returningSample (some [.selectAll])).compile (Profile.variant [] []).dialect =
        .error (.unsupported "Returning" "variant")) ∧
    ([.returning] ⊆ [Kind.returning, .output] ∧ [] ⊆ [Kind.with] ∧
      (returningSample (some [.selectAll])).compile (Profile.variant [.returning] [.with]).dialect =
        .ok ⟨"DELETE FROM `t` WHERE `a` = ? RETURNING *", [.int 1]⟩ ∧
      (returningSample (some [.selectAll])).compile
          (Profile.variant [.returning, .output] []).dialect =
        .ok ⟨"DELETE FROM `t` WHERE `a` = ? RETURNING *", [.int 1]⟩) ∧
    ((returningSample (some [.selectAll])).compile (Profile.dialect
        { Profile.variant [.returning] [.with] with
          quote := some .bracket, placeholder := some .colon })).map (·.parameters) =
      .ok [.int 1] := by
  have hengine : (returningSample none).compile Engine.mysql.dialect =
      .ok ⟨"DELETE FROM `t` WHERE `a` = ?", [.int 1]⟩ := by cbv
  have hfail : (returningSample (some [.selectAll])).compile Engine.mysql.dialect =
      .error (.unsupported "Returning" "mysql") := by cbv
  have hreturning : (returningSample (some [.selectAll])).compile
      (Profile.variant [.returning] [.with]).dialect =
        .ok ⟨"DELETE FROM `t` WHERE `a` = ? RETURNING *", [.int 1]⟩ := by cbv
  have hs : [.returning] ⊆ [Kind.returning, .output] := by decide
  have hu : [] ⊆ [Kind.with] := by decide
  obtain ⟨c, hc⟩ : ∃ c,
      (returningSample none).compile (Profile.variant [] [.with]).dialect = .ok c :=
    ⟨⟨"DELETE FROM `t` WHERE `a` = ?", [.int 1]⟩, by cbv⟩
  obtain ⟨hsame, -⟩ := (compile_profile (returningSample none) (.variant [] [.with])).1 rfl rfl
  obtain ⟨-, hplain⟩ :=
    (compile_profile (returningSample (some [.selectAll])) (.variant [] [])).1 rfl rfl
  obtain ⟨-, hmore, hstyle⟩ :=
    compile_profile (returningSample (some [.selectAll])) (.variant [.returning] [.with])
  refine ⟨⟨rfl, rfl, hengine, ?_⟩, ⟨rfl, rfl, hfail, ?_⟩, ⟨hs, hu, hreturning, ?_⟩, ?_⟩
  · exact hsame _ _ hengine hc ▸ hc
  · exact (hplain rfl rfl).trans (congrArg (Except.mapError (Error.blaming "variant")) hfail)
  · exact hmore _ _ hs hu _ hreturning
  · exact (hstyle _ _).trans (congrArg (Except.map (·.parameters)) hreturning)

end SqlTree
