import SqlTree.Proofs.Editing.Parts
import SqlTree.Proofs.Emission.Alignment
import SqlTree.Proofs.Emission.Violations

/-! # What compiling accepts

Compiling fails with the first thing that the dialect objects to, and only if there is one. The
objections depend on the kinds of nodes, on the clauses and on the flags of a tree, so a tree may
have other names, texts and values, and the dialect other quotes and placeholders. -/

namespace SqlTree

/-! ## Failing renderings -/

theorem Rendering.refusal?_append (r s : Rendering) :
    refusal? (r.append s) = (refusal? r).or (refusal? s) := by
  cases r with
  | error e => rfl
  | ok ps => rw [ok_append, refusal?_map, refusal?, Option.none_or]

theorem Rendering.refusal?_parenthesized (w : Bool) (r : Rendering) :
    refusal? (parenthesized w r) = refusal? r := by
  cases w <;> cases r <;> rfl

theorem Dialect.refusal?_gate (d : Dialect) (k : Kind) (r : Rendering) :
    refusal? (d.gate k r) = (d.objection k).head?.or (refusal? r) := by
  rw [gate, objection]
  split <;> rfl

/-- What is objected to in an item, with the objections to each part given. -/
def Item.objections (v : Node → List Error) : Item → List Error
  | .piece _ => []
  | .part n => v n
  | .refuse e => [e]

section Refusals

variable {d : Dialect} {b : Bool} {v : Node → List Error}

theorem Item.flatMap_objections {is : List Item} (h : is.any isRefusal = false) :
    is.flatMap (objections v) = (parts is).flatMap v := by
  induction is with
  | nil => rfl
  | cons i is ih =>
      rw [List.any_cons, Bool.or_eq_false_iff] at h
      cases i with
      | piece p => exact ih h.2
      | part n => rw [parts_part, List.flatMap_cons, List.flatMap_cons, ih h.2, objections]
      | refuse e => cases h.1

theorem Item.refusal?_renderAll {is : List Item}
    (h : ∀ m ∈ parts is, refusal? (m.render d b) = (v m).head?) :
    refusal? (renderAll d b is) = (is.flatMap (objections v)).head? := by
  induction is with
  | nil => rfl
  | cons i is ih =>
      rw [renderAll_cons, Rendering.refusal?_append, List.flatMap_cons, List.head?_append]
      cases i with
      | piece p => rw [ih h]; rfl
      | part n =>
          rw [parts_part, List.forall_mem_cons] at h
          rw [ih h.2, render_part, h.1, objections]
      | refuse e => rfl

theorem Layout.refusal?_render {l : Layout}
    (h : ∀ m ∈ Item.parts l.all, refusal? (m.render d b) = (v m).head?) :
    refusal? (l.render d b) = (l.all.flatMap (Item.objections v)).head? := by
  cases l with
  | items is => exact Item.refusal?_renderAll h
  | clauses cs =>
      have hc : refusal? (cs.mapM fun c => Item.renderAll d b c.2) =
          ((cs.flatMap (·.2)).flatMap (Item.objections v)).head? := by
        induction cs with
        | nil => rfl
        | cons c cs ih =>
            simp only [all, List.flatMap_cons, Item.parts_append, List.forall_mem_append] at h ih
            rw [List.mapM_cons, List.flatMap_cons, List.flatMap_append, List.head?_append,
              ← Item.refusal?_renderAll h.1, ← ih h.2]
            cases Item.renderAll d b c.2 with
            | error e => rfl
            | ok ps => cases cs.mapM fun c => Item.renderAll d b c.2 <;> rfl
      rw [all, ← hc, render]
      cases cs.mapM fun c => Item.renderAll d b c.2 <;> rfl

end Refusals

/-- The first objection to a node is the first to its layout. -/
theorem Node.head?_objections_layout (d : Dialect) (n : Node) (v : Node → List Error) :
    ((n.layout d).all.flatMap (Item.objections v)).head? =
      (((n.parts d).take n.lead).flatMap v ++ n.faults d ++
        ((n.parts d).drop n.lead).flatMap v).head? := by
  cases hf : (n.faults d).head? with
  | none =>
      rw [List.head?_eq_none_iff] at hf
      have hr := not_refuses_layout hf
      rw [Item.flatMap_objections hr, parts_layout hr, hf, List.append_nil, ← List.flatMap_append,
        List.take_append_drop]
  | some e =>
      obtain ⟨is, ha, hr, hp⟩ := refuses_layout hf
      rw [ha, List.flatMap_append, Item.flatMap_objections hr, hp, List.append_assoc,
        List.head?_append, List.head?_append, List.head?_append, hf]
      rfl

/-- A rendering fails with the first objection. -/
theorem Node.refusal?_render (d : Dialect) (n : Node) (nested : Bool) :
    refusal? (n.render d nested) = (n.objections d).head? := by
  induction n using Node.induction_parts d generalizing nested with
  | step n ih =>
      have hl := Layout.refusal?_render (b := n.kind.delimits) fun m hm =>
        ih m (mem_parts_of_layout hm) _
      rw [render_eq, Dialect.refusal?_gate, Rendering.refusal?_parenthesized, hl, objections_eq,
        List.head?_append, head?_objections_layout]

theorem Node.compile_eq_error {d : Dialect} {n : Node} {e : Error} :
    n.compile d = .error e ↔ (n.objections d).head? = some e := by
  rw [← refusal?_render d n false, ← refusal?_eq_some, compile, refusal?_map]

/-- Compiling succeeds if there is nothing to object to at any node of the walk. -/
theorem Node.exists_compile_eq_ok {d : Dialect} {n : Node} :
    (∃ c, n.compile d = .ok c) ↔ ∀ m ∈ n.walk d, d.supports m.kind = true ∧ m.faults d = [] := by
  rw [← objections_eq_nil, ← List.head?_eq_none_iff, ← refusal?_render d n false, compile]
  cases n.render d false <;> simp [refusal?, Except.map]

/-! ## Style -/

/-- The dialect with other quotes and another way to write placeholders. -/
def Dialect.restyled (d : Dialect) (q : Quotes) (p : Placeholder) : Dialect :=
  { d with quotes := q, placeholder := p }

theorem Node.objections_restyled (d : Dialect) (q : Quotes) (p : Placeholder) (n : Node) :
    n.objections (d.restyled q p) = n.objections d := by
  induction n using Node.induction_parts d with
  | step n ih =>
      have hp : n.parts (d.restyled q p) = n.parts d := by cases n <;> rfl
      have hf : n.faults (d.restyled q p) = n.faults d := by cases n <;> rfl
      have hk : (d.restyled q p).objection n.kind = d.objection n.kind := rfl
      rw [objections_eq, objections_eq, hp, hf, hk,
        List.flatMap_congr fun m hm => ih m (List.mem_of_mem_take hm),
        List.flatMap_congr fun m hm => ih m (List.mem_of_mem_drop hm)]

/-! ## Names, texts and values -/

/-- Empties names, fragments and values. Fragments of a raw text without a parameter behind them
go altogether. -/
def Edit.blank : Edit where
  table _ t := ⟨t.schema.map fun _ => ⟨""⟩, ⟨""⟩⟩
  identifier _ := ⟨""⟩
  function _ := ""
  fragments fs k := List.replicate (min fs.length k) ""
  value _ _ := (.null, false)

/-- A tree without its names, texts and values. -/
def Node.shape (n : Node) : Node := n.edit .blank []

theorem Node.parts_blank (bound : List String) (n : Node) (d : Dialect) :
    (n.edit .blank bound).parts d = (n.parts d).map (Node.edit .blank (n.bindings ++ bound)) := by
  by_cases h : n.kind = .table
  · cases n
    case table t => cases hs : t.schema <;> simp [edit, parts, Edit.blank, hs]
    all_goals cases h
  · exact parts_edit .blank bound h (fun fs k => by simp [Edit.blank]) d

section Edit

variable (e : Edit) (bound : List String)

theorem Select.carried_edit (q : Select Node) : (q.edit e bound).carried = q.carried := by
  cases q
  simp [edit, carried, Layout.present_map]

theorem Insert.carried_edit (q : Insert Node) : (q.edit e bound).carried = q.carried := by
  cases q
  simp [edit, carried, Layout.present_map]

theorem Update.carried_edit (q : Update Node) : (q.edit e bound).carried = q.carried := by
  cases q
  simp [edit, carried, Layout.present_map]

theorem Delete.carried_edit (q : Delete Node) : (q.edit e bound).carried = q.carried := by
  cases q
  simp [edit, carried, Layout.present_map]

theorem Node.faults_edit (n : Node) (d : Dialect) : (n.edit e bound).faults d = n.faults d := by
  cases n
  case select q => rw [edit, faults, q.carried_edit, faults]
  case delete q => rw [edit, faults, q.carried_edit, faults]
  case insert q =>
    rw [edit, faults, q.carried_edit, faults]
    cases q
    simp [Insert.edit]
  case update q =>
    rw [edit, faults, q.carried_edit, faults]
    cases q
    simp [Update.edit, getD_map]
  case explain x => simp [edit, faults, Explain.edit_eq]
  case onConflict c => simp [edit, faults, OnConflict.edit_eq, getD_map]
  all_goals rfl

theorem Node.lead_edit (n : Node) : (n.edit e bound).lead = n.lead := by
  cases n
  case onConflict c => simp [edit, lead, OnConflict.edit_eq, getD_map, Option.toList_map]
  all_goals rfl

end Edit

theorem Node.objections_blank (bound : List String) (n : Node) (d : Dialect) :
    (n.edit .blank bound).objections d = n.objections d := by
  induction n using Node.induction_parts d generalizing bound with
  | step n ih =>
      rw [objections_eq, objections_eq, kind_edit, faults_edit, lead_edit, parts_blank,
        ← List.map_take, ← List.map_drop, List.flatMap_map, List.flatMap_map,
        List.flatMap_congr fun m hm => ih m (List.mem_of_mem_take hm) _,
        List.flatMap_congr fun m hm => ih m (List.mem_of_mem_drop hm) _]

/-! ## Compiling -/

/-- Compiling fails with the first objection. It fails if and only if the walk meets a node whose
kind is not supported or with which something is wrong. Trees that differ in names, texts and
values only fail alike, also with other quotes and placeholders. -/
theorem Node.compile_eq_error_iff (d : Dialect) (n : Node) :
    (∀ e, n.compile d = .error e ↔ (n.objections d).head? = some e) ∧
    ((∃ e, n.compile d = .error e) ↔
      ∃ m ∈ n.walk d, d.supports m.kind = false ∨ m.faults d ≠ []) ∧
    ∀ (m : Node) (q : Quotes) (p : Placeholder) (e : Error), m.shape = n.shape →
      (m.compile (d.restyled q p) = .error e ↔ n.compile d = .error e) := by
  refine ⟨fun e => compile_eq_error, ?_, fun m q p e h => ?_⟩
  · have hw : (∃ m ∈ n.walk d, d.supports m.kind = false ∨ m.faults d ≠ []) ↔
        ¬ ∃ c, n.compile d = .ok c := by
      rw [exists_compile_eq_ok]
      push Not
      simp [imp_iff_not_or]
    rw [hw]
    cases n.compile d <;> simp
  · rw [compile_eq_error, compile_eq_error, objections_restyled, ← objections_blank [] m,
      ← objections_blank [] n]
    exact iff_of_eq (congrArg (fun k : Node => (k.objections d).head? = some e) h)

/-- An INSERT under EXPLAIN that ignores conflicting rows and inserts the result of a call. -/
def Node.ignoringSample (table function : String) (v : Value) : Node :=
  .insert
    { into := ⟨none, ⟨table⟩⟩
      source := some (.values [[.function function [.value v false]]])
      ignore := true
      explain := some ⟨some .json, none⟩
      returning := some [.column ⟨⟨table⟩⟩] }

theorem Node.compile_eq_error_iff_ignoringSample :
    (ignoringSample "b" "g" (.text "x")).shape = (ignoringSample "a" "f" (.int 1)).shape ∧
    ((ignoringSample "a" "f" (.int 1)).objections Engine.sqlite.dialect).head? =
      some (.unsupported "EXPLAIN options" "sqlite") ∧
    (ignoringSample "a" "f" (.int 1)).compile Engine.sqlite.dialect =
      .error (.unsupported "EXPLAIN options" "sqlite") ∧
    (ignoringSample "b" "g" (.text "x")).compile
        (Engine.sqlite.dialect.restyled .bracket (.numbered "$")) =
      .error (.unsupported "EXPLAIN options" "sqlite") := by
  obtain ⟨hfirst, -, hshape⟩ :=
    compile_eq_error_iff Engine.sqlite.dialect (ignoringSample "a" "f" (.int 1))
  have hs : (ignoringSample "b" "g" (.text "x")).shape =
      (ignoringSample "a" "f" (.int 1)).shape := rfl
  have hc : (ignoringSample "a" "f" (.int 1)).compile Engine.sqlite.dialect =
      .error (.unsupported "EXPLAIN options" "sqlite") := by cbv
  exact ⟨hs, (hfirst _).mp hc, hc, (hshape _ _ _ _ hs).mpr hc⟩

end SqlTree
