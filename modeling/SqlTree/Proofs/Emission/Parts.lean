import SqlTree.Proofs.Emission.Rendering

/-! # The parts of a layout

A layout that refuses nothing writes exactly the parts of its node, each once and in the order of
the walk. What a successful rendering says about its layout follows. -/

namespace SqlTree

/-! ## Items -/

/-- The part of an item, if it is one. -/
def Item.part? : Item → Option Node
  | .part n => some n
  | _ => none

/-- The parts among items. -/
def Item.parts (is : List Item) : List Node := is.filterMap part?

/-- Whether an item refuses. -/
def Item.isRefusal : Item → Bool
  | .refuse _ => true
  | _ => false

/-- The items of a layout, clause by clause. -/
def Layout.all : Layout → List Item
  | .items is => is
  | .clauses cs => cs.flatMap (·.2)

/-- Whether a layout refuses. -/
def Layout.refuses (l : Layout) : Bool := l.all.any Item.isRefusal

namespace Item

@[simp] theorem parts_nil : parts [] = [] := rfl

@[simp] theorem parts_text (s : String) (is : List Item) : parts (text s :: is) = parts is := rfl

@[simp] theorem parts_piece (p : Piece) (is : List Item) : parts (.piece p :: is) = parts is := rfl

@[simp] theorem parts_part (n : Node) (is : List Item) :
    parts (.part n :: is) = n :: parts is := rfl

@[simp] theorem parts_refuse (e : Error) (is : List Item) :
    parts (.refuse e :: is) = parts is := rfl

@[simp] theorem parts_append (is js : List Item) : parts (is ++ js) = parts is ++ parts js :=
  List.filterMap_append

@[simp] theorem parts_separated (s : String) (ns : List Node) : parts (separated s ns) = ns := by
  induction ns with
  | nil => rfl
  | cons n ns ih =>
      cases ns with
      | nil => rfl
      | cons m ms =>
          rw [separated, List.map_cons, List.map_cons, List.intersperse_cons_cons]
          simpa [separated] using ih

@[simp] theorem parts_listed (k : String) (ns : List Node) : parts (listed k ns) = ns := by
  rw [listed, parts_text, parts_separated]

@[simp] theorem parts_grouped (w : Bool) (n : Node) : parts (grouped w n) = [n] := by
  cases w <;> rfl

@[simp] theorem parts_tuple (ns : List Node) : parts (tuple ns) = ns := by
  simp [tuple]

@[simp] theorem parts_interleaved (fs : List String) (ns : List Node) :
    parts (interleaved fs ns) = ns.take fs.length := by
  fun_induction interleaved with
  | case1 => simp
  | case2 f fs ih => simpa using ih
  | case3 f fs n ns ih => simpa using ih

@[simp] theorem parts_single (n : Option Node) :
    parts ((n.map fun n => [.part n]).getD []) = n.toList := by
  cases n <;> rfl

end Item

/-! ## Clauses -/

namespace Layout

theorem lookup_cons (c k : Clause) (is : List Item) (cs : List (Clause × List Item)) :
    ((c, is) :: cs).lookup k = if k = c then some is else cs.lookup k := by
  rw [List.lookup_cons]
  by_cases h : k = c
  · simp [h]
  · rw [if_neg h, beq_false_of_ne h]

theorem lookup_clause (c k : Clause) (is : Option (List Item)) :
    (clause c is).lookup k = if k = c then is else none := by
  cases is with
  | none => simp [clause]
  | some is => exact lookup_cons c k is []

theorem lookup_single (c k : Clause) (n : Option Node) :
    (single c n).lookup k = if k = c then n.map fun n => [.part n] else none :=
  lookup_clause c k _

theorem parts_statement {d : Dialect} {k : StatementKind} {cs : List (Clause × List Item)}
    {p : Clause → List Node} (hp : ∀ c, Item.parts ((cs.lookup c).getD []) = p c) :
    Item.parts (statement d k cs).all = (d.clauseOrder k).flatMap p ∨
      (statement d k cs).refuses = true ∧
        Item.parts (statement d k cs).all ⊆ (d.clauseOrder k).flatMap p := by
  rw [statement]
  cases cs.find? fun c => !(d.clauseOrder k).contains c.1 with
  | some c => exact .inr ⟨rfl, List.nil_subset _⟩
  | none =>
      left
      induction d.clauseOrder k with
      | nil => rfl
      | cons c order ih =>
          simp only [all, List.map_cons, List.flatMap_cons, Item.parts_append, hp] at ih ⊢
          rw [ih]

theorem parts_subset_of_mem {cs : List (Clause × List Item)} {c : Clause × List Item}
    (hc : c ∈ cs) : Item.parts c.2 ⊆ Item.parts (clauses cs).all := by
  intro m hm
  obtain ⟨i, hi, hp⟩ := List.mem_filterMap.mp hm
  exact List.mem_filterMap.mpr ⟨i, List.mem_flatMap.mpr ⟨c, hc, hi⟩, hp⟩

end Layout

open Layout

theorem Select.parts_layout (q : Select Node) (c : Clause) :
    Item.parts ((q.layout.lookup c).getD []) = q.clauseParts c := by
  cases c
  all_goals simp [layout, List.lookup_append, lookup_clause, lookup_single, lookup_cons,
    clauseParts, Option.toList_map, -Option.map_map]
  case selections => rcases q.selections with _ | _ | ⟨n, ns⟩ <;> simp
  case joins => cases q.joins <;> simp
  case endModifiers => cases q.endModifiers <;> simp

theorem Insert.parts_layout (q : Insert Node) (keyword : String) (c : Clause) :
    Item.parts (((q.layout keyword).lookup c).getD []) = q.clauseParts c := by
  cases c
  all_goals simp [layout, List.lookup_append, lookup_clause, lookup_single, lookup_cons,
    clauseParts, Option.toList_map, -Option.map_map]
  case columns => rcases q.columns with _ | _ | ⟨n, ns⟩ <;> simp
  case values => cases q.source <;> simp
  case endModifiers => cases q.endModifiers <;> simp

theorem Update.parts_layout {q : Update Node} {as : List (Assignment Node)}
    (h : q.assignments = some as) (c : Clause) :
    Item.parts (((q.layout as).lookup c).getD []) = q.clauseParts c := by
  cases c
  all_goals simp [layout, List.lookup_append, lookup_clause, lookup_single, lookup_cons,
    clauseParts, Option.toList_map, h, -Option.map_map]
  case joins => cases q.joins <;> simp
  case endModifiers => cases q.endModifiers <;> simp

theorem Delete.parts_layout (q : Delete Node) (c : Clause) :
    Item.parts ((q.layout.lookup c).getD []) = q.clauseParts c := by
  cases c
  all_goals simp [layout, List.lookup_append, lookup_clause, lookup_single, lookup_cons,
    clauseParts, Option.toList_map, -Option.map_map]
  case joins => cases q.joins <;> simp
  case endModifiers => cases q.endModifiers <;> simp

/-! ## Nodes -/

/-- A layout writes the parts of its node, or refuses behind some of them. -/
theorem Node.parts_layout_or (d : Dialect) (n : Node) :
    Item.parts (n.layout d).all = n.parts d ∨
      (n.layout d).refuses = true ∧ Item.parts (n.layout d).all ⊆ n.parts d := by
  have refused (e : Error) (ns : List Node) : (Layout.items [.refuse e]).refuses = true ∧
      Item.parts (Layout.items [.refuse e]).all ⊆ ns := ⟨rfl, List.nil_subset ns⟩
  cases n
  case select q => exact parts_statement q.parts_layout
  case delete q => exact parts_statement q.parts_layout
  case insert q =>
    rw [layout]
    split
    · exact .inr (refused ..)
    · split
      · exact .inr (refused ..)
      · exact parts_statement (q.parts_layout _)
  case update q =>
    rw [layout]
    split
    · exact .inr (refused ..)
    · exact .inr (refused ..)
    · rename_i as _ ha
      exact parts_statement (Update.parts_layout ha)
  case explain e =>
    obtain ⟨format, options⟩ := e
    cases format <;> cases options <;> cases hx : d.explainSyntax <;>
      simp [Explain.layout, layout, hx, refuses, all, Item.isRefusal, parts]
  case onConflict c =>
    obtain ⟨columns, constraint, doNothing, updates, updateWhere⟩ := c
    cases columns <;> cases constraint <;> cases doNothing <;>
      rcases updates with _ | _ | ⟨u, us⟩ <;> cases updateWhere <;>
      simp [OnConflict.layout, layout, refuses, all, Item.isRefusal, parts]
  -- No other layout refuses.
  all_goals
    left
    simp [layout, all, parts]
  case table t => cases t.schema <;> simp
  case reference t c => cases t <;> simp
  case unary op n => split <;> simp
  case join j => cases j.condition <;> simp
  case orderByItem i => cases i.direction <;> simp
  case top t => cases t.modifier <;> simp
  case cteName n => cases n.columns <;> simp

theorem Node.parts_layout {d : Dialect} {n : Node} (h : (n.layout d).refuses = false) :
    Item.parts (n.layout d).all = n.parts d := by
  rcases n.parts_layout_or d with hp | ⟨hr, -⟩
  · exact hp
  · exact absurd hr (Bool.eq_false_iff.mp h)

theorem Node.mem_parts_of_layout {d : Dialect} {n m : Node}
    (h : m ∈ Item.parts (n.layout d).all) : m ∈ n.parts d := by
  rcases n.parts_layout_or d with hp | ⟨-, hs⟩
  · exact hp ▸ h
  · exact hs h

/-! ## Successful renderings -/

theorem Dialect.gate_eq_ok {d : Dialect} {k : Kind} {r : Rendering} {ps : List Piece} :
    d.gate k r = .ok ps ↔ d.supports k = true ∧ r = .ok ps := by
  rw [gate]
  split <;> simp_all

/-- Pieces in parentheses, if asked for. -/
def Piece.wrapped (wanted : Bool) (ps : List Piece) : List Piece :=
  if wanted then .text "(" :: ps ++ [.text ")"] else ps

theorem Rendering.parenthesized_eq_ok {w : Bool} {r : Rendering} {ps : List Piece} :
    parenthesized w r = .ok ps ↔ ∃ qs, r = .ok qs ∧ ps = Piece.wrapped w qs := by
  cases w with
  | false => simp [Piece.wrapped]
  | true =>
      simp only [parenthesized_true, append_eq_ok, text]
      constructor
      · rintro ⟨_, _, ⟨⟩, ⟨qs, _, hr, ⟨⟩, rfl⟩, rfl⟩
        exact ⟨qs, hr, rfl⟩
      · rintro ⟨qs, hr, rfl⟩
        exact ⟨_, _, rfl, ⟨qs, _, hr, rfl, rfl⟩, rfl⟩

theorem Item.renderAll_cons_eq_ok {d : Dialect} {b : Bool} {i : Item} {is : List Item}
    {ps : List Piece} :
    renderAll d b (i :: is) = .ok ps ↔
      ∃ qs rs, i.render d b = .ok qs ∧ renderAll d b is = .ok rs ∧ ps = qs ++ rs := by
  rw [renderAll_cons, Rendering.append_eq_ok]

theorem Layout.render_clauses_eq_ok {d : Dialect} {b : Bool} {cs : List (Clause × List Item)}
    {ps : List Piece} :
    (Layout.clauses cs).render d b = .ok ps ↔
      ∃ pss, List.Forall₂ (fun c ps => Item.renderAll d b c.2 = .ok ps) cs pss ∧
        ps = Dialect.spaced pss := by
  simp only [render, ← mapM_eq_ok]
  cases cs.mapM fun c => Item.renderAll d b c.2 <;>
    simp [bind, Except.bind, pure, Except.pure, eq_comm]

theorem Item.not_refusal_of_renderAll {d : Dialect} {b : Bool} {is : List Item} {ps : List Piece}
    (h : renderAll d b is = .ok ps) : is.any isRefusal = false := by
  induction is generalizing ps with
  | nil => rfl
  | cons i is ih =>
      obtain ⟨qs, rs, hi, his, rfl⟩ := renderAll_cons_eq_ok.mp h
      cases i with
      | piece | part => simpa [isRefusal] using ih his
      | refuse e => cases hi

theorem Layout.not_refuses_of_render {d : Dialect} {b : Bool} {l : Layout} {ps : List Piece}
    (h : l.render d b = .ok ps) : l.refuses = false := by
  cases l with
  | items is => exact Item.not_refusal_of_renderAll h
  | clauses cs =>
      obtain ⟨pss, hp, -⟩ := render_clauses_eq_ok.mp h
      clear h
      induction hp with
      | nil => rfl
      | cons hc _ ih =>
          simp only [refuses, all, List.flatMap_cons, List.any_append] at ih ⊢
          rw [Item.not_refusal_of_renderAll hc, ih, Bool.or_false]

/-- A node that renders is supported, writes its parts, and has the pieces of its layout, in
parentheses if it is a nested statement. -/
theorem Node.render_eq_ok {d : Dialect} {nested : Bool} {n : Node} {ps : List Piece}
    (h : n.render d nested = .ok ps) :
    d.supports n.kind = true ∧ Item.parts (n.layout d).all = n.parts d ∧
      ∃ qs, (n.layout d).render d n.kind.delimits = .ok qs ∧
        ps = Piece.wrapped (nested && n.kind.isStatement) qs := by
  rw [render_eq, Dialect.gate_eq_ok, Rendering.parenthesized_eq_ok] at h
  obtain ⟨hs, qs, hq, rfl⟩ := h
  exact ⟨hs, parts_layout (Layout.not_refuses_of_render hq), qs, hq, rfl⟩

end SqlTree
