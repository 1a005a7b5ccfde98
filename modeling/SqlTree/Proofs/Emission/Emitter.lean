import SqlTree.Proofs.Emission.Acceptance
import SqlTree.Proofs.Nesting.Clauses

/-! # Writing into a buffer

A tree written by a machine: a buffer of text, the parameters bound so far with their number, and
the kinds of the nodes around. The space before a clause is written before it is known whether the
clause leaves any text, and is cut off again if it leaves none. Wherever the machine starts, it
writes the rendering of the node behind what is there, and cuts off nothing else. -/

namespace SqlTree

/-! ## Cutting off the end of a text -/

namespace Text

/-- The characters that fit into a number of bytes. -/
def takeBytes : Nat → List Char → List Char
  | _, [] => []
  | n, c :: cs => if c.utf8Size ≤ n then c :: takeBytes (n - c.utf8Size) cs else []

/-- The first bytes of a text, up to the last whole character. -/
def truncate (n : Nat) (s : String) : String := .ofList (takeBytes n s.toList)

theorem takeBytes_append (cs ds : List Char) : takeBytes (String.utf8Len cs) (cs ++ ds) = cs := by
  induction cs with
  | nil =>
      cases ds with
      | nil => rfl
      | cons c ds => exact if_neg (by simpa using c.utf8Size_pos.ne')
  | cons c cs ih =>
      rw [List.cons_append, takeBytes, String.utf8Len_cons, if_pos (Nat.le_add_left _ _),
        Nat.add_sub_cancel, ih]

theorem truncate_append (s t : String) : truncate s.utf8ByteSize (s ++ t) = s := by
  have hs : s.utf8ByteSize = String.utf8Len s.toList := by
    rw [← String.utf8ByteSize_ofList, String.ofList_toList]
  rw [truncate, hs, String.toList_append, takeBytes_append, String.ofList_toList]

end Text

/-! ## The machine -/

/-- What has been written, and the kinds of the nodes around, the innermost first. -/
structure Emitter where
  sql : String := ""
  parameters : List Value := []
  index : Nat := 0
  ancestors : List Kind := []

namespace Emitter

/-- A step of the machine, which may refuse. -/
abbrev Step := Emitter → Except Error Emitter

/-- Whether a statement would stand in parentheses: not at the root, in parentheses, or directly in
an INSERT. -/
def isNested (s : Emitter) : Bool :=
  match s.ancestors with
  | [] | .parens :: _ | .insertQuery :: _ => false
  | _ => true

/-- The bytes in the buffer. -/
def length (s : Emitter) : Nat := s.sql.utf8ByteSize

def append (t : String) (s : Emitter) : Emitter := { s with sql := s.sql ++ t }

/-- Cuts the buffer off at a number of bytes. -/
def truncate (n : Nat) (s : Emitter) : Emitter := { s with sql := Text.truncate n s.sql }

/-- Takes a value as the next parameter, and writes its placeholder. -/
def bindValue (d : Dialect) (v : Value) (s : Emitter) : Emitter :=
  append (d.placeholder.text (s.index + 1))
    { s with parameters := s.parameters ++ [v], index := s.index + 1 }

def write (d : Dialect) : Piece → Emitter → Emitter
  | .text t => append t
  | .name t => append (d.identifier t)
  | .literal v => append (d.literal v)
  | .bound v => bindValue d v

/-- Writes a node of a kind: checked, and in parentheses if it is a nested statement. -/
def enter (d : Dialect) (k : Kind) (body : Step) (s : Emitter) : Except Error Emitter :=
  if d.supports k then do
    let wrap := k.isStatement && s.isNested
    let opened := if wrap then s.append "(" else s
    let written ← body { opened with ancestors := k :: s.ancestors }
    let left := { written with ancestors := written.ancestors.tail }
    return if wrap then left.append ")" else left
  else .error (.unsupported k.name d.name)

/-- Writes a clause of a statement that starts at a number of bytes. There is a space before the
clause if the statement has some text already, and none if the clause leaves no text. -/
def clause (start : Nat) (body : Step) (s : Emitter) : Except Error Emitter := do
  let opened := if start < s.length then s.append " " else s
  let written ← body opened
  return if written.length = opened.length then written.truncate s.length else written

/-- What is left when all is written. -/
def finish (s : Emitter) : Compiled := ⟨s.sql, s.parameters⟩

end Emitter

open Emitter (Step)

/-- Writes the items one after another, each part by a step of its own. -/
def Item.visitAll (d : Dialect) : (is : List Item) → ((m : Node) → .part m ∈ is → Step) → Step
  | [], _, s => .ok s
  | .piece p :: is, visit, s => visitAll d is (fun m hm => visit m (.tail _ hm)) (s.write d p)
  | .part m :: is, visit, s => do
    visitAll d is (fun m hm => visit m (.tail _ hm)) (← visit m (.head _) s)
  | .refuse e :: _, _, _ => .error e

/-- Writes the clauses of a statement that starts at a number of bytes. -/
def Layout.visitClauses (d : Dialect) (start : Nat) : (cs : List (Clause × List Item)) →
    ((m : Node) → .part m ∈ cs.flatMap (·.2) → Step) → Step
  | [], _, s => .ok s
  | c :: cs, visit, s => do
    let written ← Emitter.clause start
      (Item.visitAll d c.2 fun m hm => visit m (List.mem_append_left _ hm)) s
    visitClauses d start cs (fun m hm => visit m (List.mem_append_right _ hm)) written

/-- Writes a layout. -/
def Layout.visit (d : Dialect) : (l : Layout) → ((m : Node) → .part m ∈ l.all → Step) → Step
  | .items is, visit, s => Item.visitAll d is visit s
  | .clauses cs, visit, s => visitClauses d s.length cs visit s

theorem Item.mem_parts_of_part {is : List Item} {m : Node} (h : .part m ∈ is) : m ∈ parts is :=
  List.mem_filterMap.mpr ⟨_, h, rfl⟩

/-- Writes a node. -/
def Node.visit (d : Dialect) (n : Node) : Step :=
  Emitter.enter d n.kind ((n.layout d).visit d fun m _ => m.visit d)
termination_by sizeOf n
decreasing_by
  exact sizeOf_parts (mem_parts_of_layout (Item.mem_parts_of_part ‹.part m ∈ (n.layout d).all›))

/-! ## Writing behind what is there -/

namespace Emitter

variable {d : Dialect} {s : Emitter}

/-- The machine after some pieces. -/
def extend (d : Dialect) (s : Emitter) (ps : List Piece) : Emitter :=
  { s with
    sql := s.sql ++ Piece.write d (s.index + 1) ps
    parameters := s.parameters ++ Piece.boundValues ps
    index := s.index + (Piece.boundValues ps).length }

@[simp] theorem isNested_extend (ps : List Piece) : (s.extend d ps).isNested = s.isNested := rfl

theorem isNested_cons (k : Kind) (ks : List Kind) :
    isNested { s with ancestors := k :: ks } = k.delimits := by
  cases k <;> rfl

@[simp] theorem extend_nil : s.extend d [] = s := by
  simp [extend, Piece.write, Piece.boundValues]

@[simp] theorem extend_append (ps qs : List Piece) :
    s.extend d (ps ++ qs) = (s.extend d ps).extend d qs := by
  simp only [extend, Piece.write_append, Piece.boundValues_append, List.length_append,
    String.append_assoc, List.append_assoc, Nat.add_assoc, Nat.add_comm 1]

theorem append_eq_extend (t : String) : s.append t = s.extend d [.text t] := by
  simp [append, extend, Piece.write, Piece.boundValues, Piece.bound?]

theorem write_eq_extend (p : Piece) : s.write d p = s.extend d [p] := by
  cases p <;> simp [write, append, bindValue, extend, Piece.write, Piece.boundValues, Piece.bound?]

theorem length_extend (hb : ∀ b, d.boolLiteral b ≠ "") (ps : List Piece) :
    (s.extend d ps).length = s.length ↔ ps.all Piece.isEmpty = true := by
  rw [← Piece.write_eq_empty hb (k := s.index + 1), ← String.utf8ByteSize_eq_zero_iff]
  simp only [length, extend, String.utf8ByteSize_append]
  omega

theorem truncate_extend {ps : List Piece} (h : Piece.boundValues ps = []) :
    (s.extend d ps).truncate s.length = s := by
  simp [truncate, extend, length, Text.truncate_append, h]

/-- A step that, below nodes as given, writes a rendering behind what is there. -/
def Writes (d : Dialect) (nested : Bool) (step : Step) (r : Rendering) : Prop :=
  ∀ s : Emitter, s.isNested = nested → step s = r.map (s.extend d)

variable {b : Bool} {f g : Step} {r r' : Rendering}

theorem writes_nil : Writes d b .ok (.ok []) := fun s _ => by
  rw [Except.map, extend_nil]

theorem Writes.append (hf : Writes d b f r) (hg : Writes d b g r') :
    Writes d b (fun s => f s >>= g) (r.append r') := fun s hs => by
  change f s >>= g = _
  rw [hf s hs]
  cases r with
  | error e => rfl
  | ok ps =>
      rw [Except.map, Rendering.ok_append]
      change g (s.extend d ps) = _
      rw [hg _ ((isNested_extend ps).trans hs)]
      cases r' with
      | error e => rfl
      | ok qs => simp [Except.map]

theorem Writes.enter {k : Kind} (h : Writes d k.delimits f r) :
    Writes d b (enter d k f) (d.gate k (.parenthesized (b && k.isStatement) r)) := by
  rintro s rfl
  rw [Emitter.enter, Dialect.gate]
  split
  · rw [Bool.and_comm]
    cases s.isNested && k.isStatement with
    | false =>
        simp only [Bool.false_eq_true, if_false, Rendering.parenthesized_false]
        rw [h _ (isNested_cons k _)]
        cases r <;> rfl
    | true =>
        simp only [if_true, Rendering.parenthesized_true]
        rw [h _ (isNested_cons k _)]
        cases r with
        | error e => rfl
        | ok ps =>
            simp only [Rendering.text, Rendering.ok_append, Except.map, extend_append]
            rw [← append_eq_extend, ← append_eq_extend]
            rfl
  · rfl

theorem writes_visitAll {is : List Item} {visit : (m : Node) → .part m ∈ is → Step}
    (h : ∀ m hm, Writes d b (visit m hm) (m.render d b)) :
    Writes d b (Item.visitAll d is visit) (Item.renderAll d b is) := by
  induction is with
  | nil => exact writes_nil
  | cons i is ih =>
      have hrest : Writes d b (Item.visitAll d is fun m hm => visit m (.tail _ hm))
          (Item.renderAll d b is) := ih fun m hm => h m (.tail _ hm)
      cases i with
      | piece p =>
          have hp : Writes d b (fun s => .ok (s.write d p)) (.ok [p]) := fun s _ =>
            congrArg Except.ok (write_eq_extend p)
          exact hp.append hrest
      | part m => exact (h m (.head _)).append hrest
      | refuse e => exact fun s _ => rfl

end Emitter

/-! ### Clauses -/

namespace Piece

/-- The space between some pieces and a clause behind them. -/
def gap (ps : List Piece) : List Piece := if ps.all isEmpty then [] else [.text " "]

theorem boundValues_gap (ps : List Piece) : boundValues (gap ps) = [] := by
  rw [gap]
  split <;> rfl

theorem leading_eq (pss : List (List Piece)) :
    leading pss = Dialect.spaced pss ++ gap (Dialect.spaced pss) := by
  rcases List.eq_nil_or_concat (pss.filter fun ps => !ps.all isEmpty) with h | ⟨xss, xs, h⟩
  · rw [leading, Dialect.spaced, h]
    rfl
  · rw [List.concat_eq_append] at h
    have hxs : xs ∈ pss.filter fun ps => !ps.all isEmpty := by simp [h]
    obtain ⟨hmem, hne⟩ := List.mem_filter.mp hxs
    have hs := all_isEmpty_spaced hmem (by simpa using hne)
    rw [gap, if_neg (by simp [hs]), leading, Dialect.spaced, h, intercalate_append_cons]
    simp

theorem spaced_concat {ps : List Piece} (h : ps.all isEmpty = false) (pss : List (List Piece)) :
    Dialect.spaced (pss ++ [ps]) = Dialect.spaced pss ++ gap (Dialect.spaced pss) ++ ps := by
  rw [spaced_append_cons pss [] h, leading_eq]
  simp [trailing]

theorem spaced_concat_of_isEmpty {ps : List Piece} (h : ps.all isEmpty = true)
    (pss : List (List Piece)) : Dialect.spaced (pss ++ [ps]) = Dialect.spaced pss := by
  simp [Dialect.spaced, List.filter_append, h]

end Piece

namespace Emitter

variable {d : Dialect} {b : Bool}

/-- A clause is written behind those before it, with a space between if both leave some text. -/
theorem clause_extend (hb : ∀ b, d.boolLiteral b ≠ "") {f : Step} {r : Rendering}
    (h : Writes d b f r) {s : Emitter} (hs : s.isNested = b) (pss : List (List Piece)) :
    clause s.length f (s.extend d (Dialect.spaced pss)) =
      r.map fun ps => s.extend d (Dialect.spaced (pss ++ [ps])) := by
  generalize hq : Dialect.spaced pss = qs
  have hlen : s.length < (s.extend d qs).length ↔ qs.all Piece.isEmpty = false := by
    rw [← Bool.not_eq_true, ← length_extend hb (s := s)]
    simp only [length, extend, String.utf8ByteSize_append]
    omega
  have hopen : (if s.length < (s.extend d qs).length then (s.extend d qs).append " "
      else s.extend d qs) = (s.extend d qs).extend d (Piece.gap qs) := by
    rw [Piece.gap]
    cases he : qs.all Piece.isEmpty with
    | true => rw [if_neg (by simp [hlen, he]), if_pos rfl, extend_nil]
    | false => rw [if_pos (hlen.mpr he), append_eq_extend]; rfl
  rw [clause]
  simp only [hopen]
  rw [h _ (by simpa using hs)]
  cases r with
  | error e => rfl
  | ok ps =>
      simp only [Except.map, bind, Except.bind, pure, Except.pure, length_extend hb]
      congr 1
      cases he : ps.all Piece.isEmpty with
      | true =>
          rw [if_pos rfl, Piece.spaced_concat_of_isEmpty he, hq, ← extend_append]
          refine truncate_extend ?_
          rw [Piece.boundValues_append, Piece.boundValues_gap,
            Piece.boundValues_of_all_isEmpty he, List.append_nil]
      | false =>
          rw [if_neg (by simp), Piece.spaced_concat he, hq, extend_append, extend_append]

theorem visitClauses_extend (hb : ∀ b, d.boolLiteral b ≠ "") {cs : List (Clause × List Item)}
    {visit : (m : Node) → .part m ∈ cs.flatMap (·.2) → Step}
    (h : ∀ m hm, Writes d b (visit m hm) (m.render d b)) {s : Emitter} (hs : s.isNested = b)
    (pss : List (List Piece)) :
    Layout.visitClauses d s.length cs visit (s.extend d (Dialect.spaced pss)) =
      (cs.mapM fun c => Item.renderAll d b c.2).map fun qss =>
        s.extend d (Dialect.spaced (pss ++ qss)) := by
  induction cs generalizing pss with
  | nil => simp [Layout.visitClauses, pure, Except.pure, Except.map]
  | cons c cs ih =>
      have hc : Writes d b (Item.visitAll d c.2 fun m hm => visit m (List.mem_append_left _ hm))
          (Item.renderAll d b c.2) := writes_visitAll fun m hm => h m (List.mem_append_left _ hm)
      rw [Layout.visitClauses, clause_extend hb hc hs, List.mapM_cons]
      cases Item.renderAll d b c.2 with
      | error e => rfl
      | ok ps =>
          have hrest := ih (fun m hm => h m (List.mem_append_right _ hm)) (pss ++ [ps])
          change Layout.visitClauses d s.length cs _ _ = _
          rw [hrest]
          cases cs.mapM fun c => Item.renderAll d b c.2 with
          | error e => rfl
          | ok qss => simp [Except.map, bind, Except.bind, pure, Except.pure]

theorem writes_visit_layout (hb : ∀ b, d.boolLiteral b ≠ "") {l : Layout}
    {visit : (m : Node) → .part m ∈ l.all → Step}
    (h : ∀ m hm, Writes d b (visit m hm) (m.render d b)) :
    Writes d b (l.visit d visit) (l.render d b) := by
  cases l with
  | items is => exact writes_visitAll h
  | clauses cs =>
      intro s hs
      have hc := visitClauses_extend hb h hs []
      rw [show Dialect.spaced [] = [] from rfl, extend_nil] at hc
      rw [Layout.visit, hc, Layout.render]
      cases cs.mapM fun c => Item.renderAll d b c.2 <;> rfl

/-- Wherever the machine stands, it writes the rendering of a node behind what is there. -/
theorem writes_visit (hb : ∀ b, d.boolLiteral b ≠ "") (n : Node) (b : Bool) :
    Writes d b (n.visit d) (n.render d b) := by
  induction n using Node.induction_parts d generalizing b with
  | step n ih =>
      rw [Node.visit, Node.render_eq]
      refine Writes.enter (writes_visit_layout hb fun m hm => ih m ?_ _)
      exact Node.mem_parts_of_layout (Item.mem_parts_of_part hm)

end Emitter

/-! ## What visiting a node leaves -/

namespace Node

variable {d : Dialect}

theorem visit_eq (hd : d.Provided) (n : Node) (s : Emitter) :
    n.visit d s = (n.render d s.isNested).map (s.extend d) :=
  Emitter.writes_visit hd.boolLiteral_ne_empty n s.isNested s rfl

theorem compile_eq_visit (hd : d.Provided) (n : Node) :
    n.compile d = (n.visit d {}).map Emitter.finish := by
  rw [visit_eq hd, compile]
  change _ = ((n.render d false).map _).map _
  cases n.render d false with
  | error e => rfl
  | ok ps => simp [Except.map, Emitter.finish, Emitter.extend, Compiled.ofPieces, Piece.boundValues]

/-- Whether a node is refused does not depend on where it stands. -/
theorem visit_eq_error (hd : d.Provided) (n : Node) (s : Emitter) {e : Error} :
    n.visit d s = .error e ↔ n.compile d = .error e := by
  rw [visit_eq hd, compile, ← refusal?_eq_some, ← refusal?_eq_some, refusal?_map, refusal?_map,
    render_eq, render_eq, Dialect.refusal?_gate, Dialect.refusal?_gate,
    Rendering.refusal?_parenthesized, Rendering.refusal?_parenthesized]

/-- The machine compiles what the renderer does and refuses the same nodes everywhere, and a
successful visit only appends: behind the old text, a text that depends on the node, on whether it
would be nested, and on how many parameters there are; behind the old parameters, a list that
depends on the node alone. The number of the parameters is kept, and the nodes around are the same
again. -/
theorem visit_appends (hd : d.Provided) (n : Node) :
    n.compile d = (n.visit d {}).map Emitter.finish ∧
    (∀ s e, n.visit d s = .error e ↔ n.compile d = .error e) ∧
    ∃ values : List Value, ∀ nested, ∃ text : Nat → String, ∀ s s' : Emitter,
      s.index = s.parameters.length → s.isNested = nested → n.visit d s = .ok s' →
        s'.sql = s.sql ++ text s.parameters.length ∧ s'.parameters = s.parameters ++ values ∧
        s'.index = s'.parameters.length ∧ s'.ancestors = s.ancestors := by
  refine ⟨compile_eq_visit hd n, fun s e => visit_eq_error hd n s, n.boundValues d,
    fun nested => ?_⟩
  cases hr : n.render d nested with
  | error e =>
      refine ⟨fun _ => "", ?_⟩
      rintro s s' - rfl hv
      rw [visit_eq hd, hr] at hv
      cases hv
  | ok ps =>
      refine ⟨fun k => Piece.write d (k + 1) ps, ?_⟩
      rintro s s' hi rfl hv
      rw [visit_eq hd, hr] at hv
      cases hv
      refine ⟨by rw [← hi]; rfl, by rw [← boundValues_render hr]; rfl, ?_, rfl⟩
      rw [Emitter.extend, List.length_append, ← hi]

/-- A query without the joins that its list of joins has a place for. -/
def visitedSample : Node :=
  .select { fromItems := some [.table ⟨none, ⟨"t"⟩⟩], joins := some [],
            whereClause := some (.bound (.int 7)) }

/-- A machine in the middle of another query, behind its first parameter. -/
def emitterSample : Emitter := ⟨"SELECT $1 FROM ", [.null], 1, [.from, .selectQuery]⟩

theorem visit_appends_visitedSample : ∃ s' text values,
    visitedSample.visit Engine.postgres.dialect emitterSample = .ok s' ∧
    s'.sql = "SELECT $1 FROM (SELECT * FROM \x22t\x22 WHERE $2)" ∧
    s'.sql = emitterSample.sql ++ text ∧ s'.parameters = emitterSample.parameters ++ values ∧
    s'.index = s'.parameters.length ∧ s'.ancestors = emitterSample.ancestors := by
  obtain ⟨-, -, values, h⟩ := visit_appends (.engine .postgres) visitedSample
  obtain ⟨text, h⟩ := h true
  have hv := visit_eq (.engine .postgres) visitedSample emitterSample
  exact ⟨_, _, _, hv, rfl, h emitterSample _ rfl rfl hv⟩

end Node
end SqlTree
