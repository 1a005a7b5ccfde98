import SqlTree.Proofs.Emission.Parts

/-! # The leaves of a rendering

Names and values are the only pieces that are not fixed text, and each comes from an identifier
or a value of the tree. A successful rendering has those of the walk, in the order of the walk. -/

namespace SqlTree

/-- Whether a piece is a name or a value. -/
def Piece.isLeaf : Piece → Bool
  | .text _ => false
  | _ => true

/-- The names and values among pieces. -/
def Piece.leaves (ps : List Piece) : List Piece := ps.filter isLeaf

/-- The name or value a node is. -/
def Node.leaf? : Node → Option Piece
  | .identifier i => some (.name i.name)
  | .value v immediate => some (if immediate then .literal v else .bound v)
  | _ => none

/-- The names and values that a walk meets. -/
def Node.leaves (d : Dialect) (n : Node) : List Piece := (n.walk d).filterMap leaf?

theorem Node.leaves_eq (d : Dialect) (n : Node) :
    n.leaves d = n.leaf?.toList ++ (n.parts d).flatMap (Node.leaves d) := by
  rw [leaves, walk_eq, List.filterMap_cons, List.filterMap_flatMap]
  cases n.leaf? <;> rfl

namespace Piece

@[simp] theorem leaves_nil : leaves [] = [] := rfl

@[simp] theorem leaves_text (s : String) (ps : List Piece) : leaves (.text s :: ps) = leaves ps :=
  rfl

@[simp] theorem leaves_append (ps qs : List Piece) : leaves (ps ++ qs) = leaves ps ++ leaves qs :=
  List.filter_append ..

theorem leaves_wrapped (w : Bool) (ps : List Piece) : leaves (wrapped w ps) = leaves ps := by
  cases w with
  | false => rfl
  | true => simp [wrapped]

theorem leaves_of_isEmpty {ps : List Piece} (h : ps.all isEmpty = true) : leaves ps = [] := by
  rw [leaves, List.filter_eq_nil_iff]
  intro p hp
  have he := List.all_eq_true.mp h p hp
  cases p <;> simp_all [isEmpty, isLeaf]

/-- Leaving out empty clauses and writing spaces between the others loses no name or value. -/
theorem leaves_spaced (pss : List (List Piece)) :
    leaves (Dialect.spaced pss) = pss.flatMap leaves := by
  have hi : ∀ qss : List (List Piece),
      leaves (List.intercalate [.text " "] qss) = qss.flatMap leaves := by
    intro qss
    induction qss with
    | nil => rfl
    | cons qs qss ih =>
        cases qss with
        | nil => simp
        | cons rs rss => simp_all [List.intercalate_cons_cons]
  rw [Dialect.spaced, hi]
  induction pss with
  | nil => rfl
  | cons ps pss ih =>
      rw [List.flatMap_cons, List.filter_cons]
      split
      · rw [List.flatMap_cons, ih]
      · rename_i he
        rw [ih, leaves_of_isEmpty (by simpa using he), List.nil_append]

end Piece

/-! ## Layouts of fixed text and parts -/

/-- Whether an item is no name and no value itself. -/
def Item.isPlain : Item → Bool
  | .piece p => !p.isLeaf
  | _ => true

namespace Item

@[simp] theorem isPlain_text (s : String) : (text s).isPlain = true := rfl

@[simp] theorem isPlain_part (n : Node) : (part n).isPlain = true := rfl

@[simp] theorem isPlain_refuse (e : Error) : (refuse e).isPlain = true := rfl

@[simp] theorem all_isPlain_separated (s : String) (ns : List Node) :
    (separated s ns).all isPlain = true := by
  induction ns with
  | nil => rfl
  | cons n ns ih =>
      cases ns with
      | nil => rfl
      | cons m ms =>
          rw [separated, List.map_cons, List.map_cons, List.intersperse_cons_cons]
          simpa [separated] using ih

@[simp] theorem all_isPlain_listed (k : String) (ns : List Node) :
    (listed k ns).all isPlain = true := by
  simp [listed, -List.all_eq_true]

@[simp] theorem all_isPlain_tuple (ns : List Node) : (tuple ns).all isPlain = true := by
  simp [tuple, -List.all_eq_true]

@[simp] theorem all_isPlain_grouped (w : Bool) (n : Node) : (grouped w n).all isPlain = true := by
  cases w <;> rfl

@[simp] theorem all_isPlain_interleaved (fs : List String) (ns : List Node) :
    (interleaved fs ns).all isPlain = true := by
  fun_induction interleaved with
  | case1 => rfl
  | case2 f fs ih => exact ih
  | case3 f fs n ns ih => exact ih

end Item

/-! ## The lists of items in a layout -/

namespace Layout

/-- The lists of items of a layout. -/
def lists : Layout → List (List Item)
  | .items is => [is]
  | .clauses cs => cs.map (·.2)

/-- The property of each of some clauses. -/
def Each (P : List Item → Prop) (cs : List (Clause × List Item)) : Prop := ∀ x ∈ cs, P x.2

variable {P : List Item → Prop}

@[simp] theorem each_nil : Each P [] := fun _ h => nomatch h

@[simp] theorem each_cons {x : Clause × List Item} {cs : List (Clause × List Item)} :
    Each P (x :: cs) ↔ P x.2 ∧ Each P cs := List.forall_mem_cons

@[simp] theorem each_append {cs ds : List (Clause × List Item)} :
    Each P (cs ++ ds) ↔ Each P cs ∧ Each P ds := List.forall_mem_append

@[simp] theorem each_clause {c : Clause} {is : Option (List Item)} :
    Each P (clause c is) ↔ ∀ js, is = some js → P js := by
  cases is <;> simp [clause]

@[simp] theorem each_single {c : Clause} {n : Option Node} :
    Each P (single c n) ↔ ∀ m, n = some m → P [.part m] := by
  cases n <;> simp [single]

theorem each_lookup {cs : List (Clause × List Item)} (hn : P []) (h : Each P cs) (c : Clause) :
    P ((cs.lookup c).getD []) := by
  cases hc : cs.lookup c with
  | none => exact hn
  | some js =>
      obtain ⟨ys, zs, rfl, -⟩ := List.lookup_eq_some_iff.mp hc
      exact h (c, js) (by simp)

/-- What holds of each clause of a statement, of no items and of a refusal holds of the layout. -/
theorem forall_statement {d : Dialect} {k : StatementKind} {cs : List (Clause × List Item)}
    (hn : P []) (hr : ∀ e, P [.refuse e]) (h : Each P cs) :
    ∀ is ∈ (statement d k cs).lists, P is := by
  intro is hi
  rw [statement] at hi
  split at hi
  · rw [lists, List.mem_singleton] at hi
    exact hi ▸ hr _
  · rw [lists, List.map_map, List.mem_map] at hi
    obtain ⟨c, -, rfl⟩ := hi
    exact each_lookup hn h c

end Layout

open Item Layout

theorem Select.all_isPlain_layout (q : Select Node) : Each (·.all isPlain = true) q.layout := by
  rcases h : q.selections with _ | _ | ⟨n, ns⟩
  all_goals simp [layout, h, -List.all_eq_true]

theorem Insert.all_isPlain_layout (q : Insert Node) (keyword : String) :
    Each (·.all isPlain = true) (q.layout keyword) := by
  cases h : q.source
  all_goals
    simp [layout, h, -List.all_eq_true]
    intro cs _
    split <;> simp [-List.all_eq_true]

theorem Update.all_isPlain_layout (q : Update Node) (as : List (Assignment Node)) :
    Each (·.all isPlain = true) (q.layout as) := by
  simp [layout, -List.all_eq_true]

theorem Delete.all_isPlain_layout (q : Delete Node) : Each (·.all isPlain = true) q.layout := by
  simp [layout, -List.all_eq_true]

/-- What holds of each clause of the statements, of no items and of a refusal holds of the layout of
every statement. -/
theorem Node.forall_lists_of_isStatement {P : List Item → Prop} {d : Dialect} {n : Node}
    (hs : n.kind.isStatement = true) (hn : P []) (hr : ∀ e, P [.refuse e])
    (hselect : ∀ q : Select Node, Each P q.layout)
    (hinsert : ∀ (q : Insert Node) (keyword : String),
      keyword = "INSERT" ∨ d.insertIgnore = some keyword → Each P (q.layout keyword))
    (hupdate : ∀ (q : Update Node) (as : List (Assignment Node)), as ≠ [] → Each P (q.layout as))
    (hdelete : ∀ q : Delete Node, Each P q.layout) :
    ∀ is ∈ (n.layout d).lists, P is := by
  have refused (e : Error) : ∀ is ∈ (Layout.items [.refuse e]).lists, P is :=
    List.forall_mem_singleton.mpr (hr e)
  cases n
  case select q => exact forall_statement hn hr (hselect q)
  case delete q => exact forall_statement hn hr (hdelete q)
  case update q =>
    rw [layout]
    split
    · exact refused _
    · exact refused _
    · rename_i as hne _
      exact forall_statement hn hr (hupdate q as hne)
  case insert q =>
    rw [layout]
    split
    · exact refused _
    · split
      · exact refused _
      · rename_i keyword hk
        refine forall_statement hn hr (hinsert q keyword ?_)
        split at hk
        · exact .inr hk
        · exact .inl (Option.some.inj hk).symm
  all_goals cases hs

/-- Apart from identifiers and values, a node writes fixed text around its parts. -/
theorem Node.all_isPlain_layout {d : Dialect} {n : Node} (h : n.leaf? = none) :
    ∀ is ∈ (n.layout d).lists, is.all isPlain = true := by
  cases n
  case select | insert | update | delete =>
    exact forall_lists_of_isStatement rfl rfl (fun _ => rfl) Select.all_isPlain_layout
      (fun q keyword _ => q.all_isPlain_layout keyword) (fun q as _ => q.all_isPlain_layout as)
      Delete.all_isPlain_layout
  case identifier | value => simp [leaf?] at h
  all_goals simp [layout, lists, -List.all_eq_true]
  case table t => cases t.schema <;> simp [-List.all_eq_true]
  case reference t c => cases t <;> simp [-List.all_eq_true]
  case unary op n => split <;> simp [-List.all_eq_true]
  case join j => cases j.condition <;> simp [-List.all_eq_true]
  case orderByItem i => cases i.direction <;> simp [-List.all_eq_true]
  case top t => cases t.modifier <;> simp [-List.all_eq_true]
  case cteName n => cases n.columns <;> simp [-List.all_eq_true]
  case explain e =>
    obtain ⟨format, options⟩ := e
    cases format <;> cases options <;> cases hx : d.explainSyntax <;>
      simp [Explain.layout, hx]
  case onConflict c =>
    obtain ⟨columns, constraint, doNothing, updates, updateWhere⟩ := c
    cases columns <;> cases constraint <;> cases doNothing <;>
      rcases updates with _ | _ | ⟨u, us⟩ <;> cases updateWhere <;>
      simp [OnConflict.layout, -List.all_eq_true]

/-! ## Renderings -/

theorem Item.leaves_renderAll {d : Dialect} {b : Bool} {is : List Item} {ps : List Piece}
    (h : renderAll d b is = .ok ps) (hp : is.all isPlain = true)
    (hm : ∀ m ∈ parts is, ∀ ps, m.render d b = .ok ps → Piece.leaves ps = m.leaves d) :
    Piece.leaves ps = (parts is).flatMap (Node.leaves d) := by
  induction is generalizing ps with
  | nil =>
      cases h
      rfl
  | cons i is ih =>
      obtain ⟨qs, rs, hi, his, rfl⟩ := renderAll_cons_eq_ok.mp h
      rw [List.all_cons, Bool.and_eq_true] at hp
      cases i with
      | piece p =>
          cases hi
          have hl : Piece.leaves [p] = [] := by simpa [Piece.leaves, isPlain] using hp.1
          rw [Piece.leaves_append, hl, parts_piece, ih his hp.2 hm, List.nil_append]
      | part n =>
          rw [parts_part] at hm ⊢
          rw [Piece.leaves_append, List.flatMap_cons, hm n List.mem_cons_self qs hi,
            ih his hp.2 fun m hmem => hm m (List.mem_cons_of_mem _ hmem)]
      | refuse e => cases hi

theorem Layout.leaves_render {d : Dialect} {b : Bool} {l : Layout} {ps : List Piece}
    (h : l.render d b = .ok ps) (hp : ∀ is ∈ l.lists, is.all isPlain = true)
    (hm : ∀ m ∈ parts l.all, ∀ ps, m.render d b = .ok ps → Piece.leaves ps = m.leaves d) :
    Piece.leaves ps = (parts l.all).flatMap (Node.leaves d) := by
  cases l with
  | items is => exact Item.leaves_renderAll h (hp is (by simp [lists])) hm
  | clauses cs =>
      obtain ⟨pss, hc, rfl⟩ := render_clauses_eq_ok.mp h
      rw [Piece.leaves_spaced]
      clear h
      induction hc with
      | nil => rfl
      | @cons c qs cs pss hcq _ ih =>
          simp only [lists, all, List.map_cons, List.forall_mem_cons, List.flatMap_cons,
            parts_append, List.forall_mem_append] at hp hm ih ⊢
          rw [List.flatMap_append, Item.leaves_renderAll hcq hp.1 hm.1, ih hp.2 hm.2]

/-- A node that renders writes the names and values that its walk meets, in that order. -/
theorem Node.leaves_render {d : Dialect} {n : Node} {nested : Bool} {ps : List Piece}
    (h : n.render d nested = .ok ps) : Piece.leaves ps = n.leaves d := by
  induction n using Node.induction_parts d generalizing nested ps with
  | step n ih =>
      obtain ⟨-, hparts, qs, hq, rfl⟩ := Node.render_eq_ok h
      rw [Piece.leaves_wrapped, leaves_eq]
      cases hl : n.leaf? with
      | none =>
          rw [← hparts] at ih ⊢
          exact Layout.leaves_render hq (all_isPlain_layout hl) fun m hm ps hps => ih m hm hps
      | some p =>
          -- The node is an identifier or a value, and its layout is the piece itself.
          cases n <;> simp only [leaf?, reduceCtorEq, Option.some.injEq] at hl
          case identifier i =>
            subst hl
            cases hq
            rfl
          case value v immediate =>
            subst hl
            cases hq
            cases immediate <;> rfl

end SqlTree
