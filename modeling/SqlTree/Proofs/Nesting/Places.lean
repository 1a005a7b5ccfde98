import SqlTree.Proofs.Predicate.Merging

/-! # Where the nodes of a tree stand in its text

The text of a tree holds the text of each node that is written, with other pieces before it and
behind. A layout tells what stands around a part of its node, and along the way from the root to a
node this adds up to what stands around the node in the whole text. -/

namespace SqlTree

/-! ## Parentheses -/

namespace Piece

/-- An opening parenthesis, if asked for. -/
def opening (wanted : Bool) : List Piece := if wanted then [.text "("] else []

/-- A closing parenthesis, if asked for. -/
def closing (wanted : Bool) : List Piece := if wanted then [.text ")"] else []

theorem wrapped_eq (wanted : Bool) (ps : List Piece) :
    wrapped wanted ps = opening wanted ++ ps ++ closing wanted := by
  cases wanted with
  | false => simp [wrapped, opening, closing]
  | true => rfl

end Piece

/-! ## Around a part of a layout -/

/-- What a layout writes before and behind one of its parts. A clause that leaves no text is left
out together with its parts. -/
inductive Layout.Around (d : Dialect) (b : Bool) :
    Layout → List Piece → Node → List Piece → Prop where
  | items {is js : List Item} {us vs : List Piece} {m : Node}
      (before : Item.renderAll d b is = .ok us) (behind : Item.renderAll d b js = .ok vs) :
      Around d b (.items (is ++ .part m :: js)) us m vs
  | clauses {cs ds : List (Clause × List Item)} {c : Clause} {is js : List Item}
      {pss qss : List (List Piece)} {us ps vs : List Piece} {m : Node}
      (earlier : List.Forall₂ (fun c ps => Item.renderAll d b c.2 = .ok ps) cs pss)
      (before : Item.renderAll d b is = .ok us) (own : m.render d b = .ok ps)
      (behind : Item.renderAll d b js = .ok vs)
      (later : List.Forall₂ (fun c ps => Item.renderAll d b c.2 = .ok ps) ds qss)
      (written : (us ++ (ps ++ vs)).all Piece.isEmpty = false) :
      Around d b (.clauses (cs ++ (c, is ++ .part m :: js) :: ds)) (Piece.leading pss ++ us) m
        (vs ++ Piece.trailing qss)

section Around

variable {d : Dialect} {b : Bool} {us vs ps qs : List Piece} {m : Node}

theorem Item.exists_renderAll {is js : List Item} {rs : List Piece}
    (h : renderAll d b (is ++ .part m :: js) = .ok rs) :
    ∃ us qs vs, renderAll d b is = .ok us ∧ m.render d b = .ok qs ∧ renderAll d b js = .ok vs ∧
      rs = us ++ (qs ++ vs) := by
  rw [renderAll_append, Rendering.append_eq_ok] at h
  obtain ⟨us, rest, hus, hrest, rfl⟩ := h
  obtain ⟨qs, vs, hq, hvs, rfl⟩ := renderAll_cons_eq_ok.mp hrest
  exact ⟨us, qs, vs, hus, hq, hvs, rfl⟩

/-- The part of a layout stands between what is around it. -/
theorem Layout.Around.render {l : Layout} (h : l.Around d b us m vs) (hl : l.render d b = .ok ps) :
    ∃ qs, m.render d b = .ok qs ∧ ps = us ++ (qs ++ vs) := by
  cases h with
  | items before behind =>
      obtain ⟨us', qs, vs', hus, hq, hvs, rfl⟩ := Item.exists_renderAll hl
      cases before.symm.trans hus
      cases behind.symm.trans hvs
      exact ⟨qs, hq, rfl⟩
  | @clauses cs ds c is js pss qss us rs vs m earlier before own behind later written =>
      have hclause : Item.renderAll d b (is ++ .part m :: js) = .ok (us ++ (rs ++ vs)) := by
        rw [Item.renderAll_append, before, Item.renderAll_cons, Item.render_part, own, behind]
        rfl
      have hall : List.Forall₂ (fun c ps => Item.renderAll d b c.2 = .ok ps)
          (cs ++ (c, is ++ .part m :: js) :: ds) (pss ++ (us ++ (rs ++ vs)) :: qss) :=
        List.rel_append earlier (.cons hclause later)
      have hps : (Layout.clauses (cs ++ (c, is ++ .part m :: js) :: ds)).render d b =
          .ok (Dialect.spaced (pss ++ (us ++ (rs ++ vs)) :: qss)) :=
        Layout.render_clauses_eq_ok.mpr ⟨_, hall, rfl⟩
      rw [hl] at hps
      cases hps
      refine ⟨rs, own, ?_⟩
      rw [Piece.spaced_append_cons pss qss written]
      simp only [List.append_assoc]

theorem exists_forall₂_append_cons {α β : Type} {r : α → β → Prop} {xs zs : List α} {x : α}
    {ys : List β} (h : List.Forall₂ r (xs ++ x :: zs) ys) :
    ∃ us y vs, List.Forall₂ r xs us ∧ r x y ∧ List.Forall₂ r zs vs ∧ ys = us ++ y :: vs := by
  induction xs generalizing ys with
  | nil =>
      obtain ⟨y, vs, hy, hvs, rfl⟩ := List.forall₂_cons_left_iff.mp h
      exact ⟨[], y, vs, .nil, hy, hvs, rfl⟩
  | cons a xs ih =>
      obtain ⟨u, rest, hu, hrest, rfl⟩ := List.forall₂_cons_left_iff.mp h
      obtain ⟨us, y, vs, hus, hy, hvs, rfl⟩ := ih hrest
      exact ⟨u :: us, y, vs, .cons hu hus, hy, hvs, rfl⟩

theorem Item.mem_parts {is : List Item} (h : m ∈ parts is) : Item.part m ∈ is := by
  obtain ⟨i, hi, hm⟩ := List.mem_filterMap.mp h
  cases i with
  | part n =>
      cases hm
      exact hi
  | piece | refuse => cases hm

/-- Something stands around each part that leaves some text. -/
theorem Layout.exists_around {l : Layout} (hl : l.render d b = .ok ps) (hm : m ∈ Item.parts l.all)
    (hq : ∀ qs, m.render d b = .ok qs → qs.all Piece.isEmpty = false) :
    ∃ us vs, l.Around d b us m vs := by
  cases l with
  | items is =>
      obtain ⟨is, js, rfl⟩ := List.append_of_mem (Item.mem_parts hm)
      obtain ⟨us, qs, vs, hus, -, hvs, -⟩ := Item.exists_renderAll hl
      exact ⟨us, vs, .items hus hvs⟩
  | clauses cs =>
      obtain ⟨⟨c, is⟩, hc, hi⟩ := List.mem_flatMap.mp (Item.mem_parts hm)
      obtain ⟨is, js, rfl⟩ := List.append_of_mem hi
      obtain ⟨cs, ds, rfl⟩ := List.append_of_mem hc
      obtain ⟨pss, hpss, -⟩ := Layout.render_clauses_eq_ok.mp hl
      obtain ⟨pss, rs, qss, hearlier, hclause, hlater, rfl⟩ := exists_forall₂_append_cons hpss
      obtain ⟨us, qs, vs, hus, hqs, hvs, -⟩ := Item.exists_renderAll hclause
      have hwritten : (us ++ (qs ++ vs)).all Piece.isEmpty = false := by
        rw [List.all_append, List.all_append, hq qs hqs, Bool.false_and, Bool.and_false]
      exact ⟨_, _, .clauses hearlier hus hqs hvs hlater hwritten⟩

end Around

/-! ## From the root to a node -/

/-- The pieces of a node without the parentheses of a nested statement. -/
def Node.renderOwn (d : Dialect) (n : Node) : Rendering := (n.layout d).render d n.kind.delimits

theorem Node.exists_renderOwn {d : Dialect} {n : Node} {nested : Bool} {ps : List Piece}
    (h : n.render d nested = .ok ps) :
    ∃ qs, n.renderOwn d = .ok qs ∧ ps = Piece.wrapped (nested && n.kind.isStatement) qs :=
  (render_eq_ok h).2.2

theorem Node.renderOwn_eq_ok {d : Dialect} {n : Node} {nested : Bool} {ps : List Piece}
    (hs : n.kind.isStatement = false) (h : n.render d nested = .ok ps) :
    n.renderOwn d = .ok ps := by
  obtain ⟨qs, hqs, rfl⟩ := exists_renderOwn h
  rwa [hs, Bool.and_false, Piece.wrapped, if_neg Bool.false_ne_true]

/-- Whether a node stands in parentheses that it gets for being a statement below `p`. -/
def Node.isEnclosed (p m : Node) : Bool := p.kind.delimits && m.kind.isStatement

/-- A node stands in the text of `n`, between what is before its own pieces and behind them. It is
the root, or directly below the given node. -/
inductive Node.Stands (d : Dialect) (n : Node) :
    Option Node → List Piece → Node → List Piece → Prop where
  | root : Stands d n none [] n []
  | part {o : Option Node} {p m : Node} {us vs before behind : List Piece}
      (above : Stands d n o us p vs)
      (around : (p.layout d).Around d p.kind.delimits before m behind) :
      Stands d n (some p) (us ++ before ++ Piece.opening (p.isEnclosed m)) m
        (Piece.closing (p.isEnclosed m) ++ behind ++ vs)

/-- The own pieces of a node are among those of the root, at its place. -/
theorem Node.Stands.renderOwn {d : Dialect} {n m : Node} {o : Option Node} {us vs ps : List Piece}
    (h : n.Stands d o us m vs) (hn : n.renderOwn d = .ok ps) :
    ∃ qs, m.renderOwn d = .ok qs ∧ ps = us ++ (qs ++ vs) := by
  induction h with
  | root => exact ⟨ps, hn, by rw [List.nil_append, List.append_nil]⟩
  | part above around ih =>
      obtain ⟨rs, hp, rfl⟩ := ih
      obtain ⟨qs, hm, rfl⟩ := around.render hp
      obtain ⟨own, hown, rfl⟩ := exists_renderOwn hm
      refine ⟨own, hown, ?_⟩
      rw [Piece.wrapped_eq]
      simp only [isEnclosed, List.append_assoc]

/-! ## Statements leave some text -/

theorem Piece.all_isEmpty_append {us qs vs : List Piece} (h : qs.all isEmpty = false) :
    (us ++ (qs ++ vs)).all isEmpty = false := by
  rw [List.all_append, List.all_append, h, Bool.false_and, Bool.and_false]

theorem Piece.all_isEmpty_spaced {pss : List (List Piece)} {ps : List Piece} (hm : ps ∈ pss)
    (h : ps.all isEmpty = false) : (Dialect.spaced pss).all isEmpty = false := by
  obtain ⟨pss, qss, rfl⟩ := List.append_of_mem hm
  rw [spaced_append_cons pss qss h]
  exact all_isEmpty_append h

/-- A statement leaves the text of a clause that it cannot be without. -/
theorem Layout.all_isEmpty_statement {d : Dialect} {b : Bool} {k : StatementKind}
    {cs : List (Clause × List Item)} {c : Clause} {p : Piece} {is : List Item} {ps : List Piece}
    (hc : cs.lookup c = some (.piece p :: is)) (hp : p.isEmpty = false)
    (h : (statement d k cs).render d b = .ok ps) : ps.all Piece.isEmpty = false := by
  rw [statement] at h
  cases hf : cs.find? fun c => !(d.clauseOrder k).contains c.1 with
  | some x =>
      rw [hf] at h
      cases h
  | none =>
      rw [hf] at h
      obtain ⟨cs₁, cs₂, hcs, -⟩ := List.lookup_eq_some_iff.mp hc
      have hmem : (c, .piece p :: is) ∈ cs := hcs ▸ List.mem_append_right _ (List.mem_cons_self ..)
      have hplace : c ∈ d.clauseOrder k := by
        have hc := List.find?_eq_none.mp hf _ hmem
        simpa using hc
      obtain ⟨before, behind, horder⟩ := List.append_of_mem hplace
      obtain ⟨pss, hpss, rfl⟩ := render_clauses_eq_ok.mp h
      rw [horder, List.map_append, List.map_cons, hc, Option.getD_some] at hpss
      obtain ⟨us, qs, vs, -, hqs, -, rfl⟩ := exists_forall₂_append_cons hpss
      obtain ⟨_, rs, ⟨⟩, -, rfl⟩ := Item.renderAll_cons_eq_ok.mp hqs
      refine Piece.all_isEmpty_spaced (List.mem_append_right _ (List.mem_cons_self ..)) ?_
      rw [List.all_append, List.all_cons, hp, Bool.false_and, Bool.false_and]

theorem Node.all_isEmpty_renderOwn {d : Dialect} {n : Node} {ps : List Piece}
    (hs : n.kind.isStatement = true) (h : n.renderOwn d = .ok ps) :
    ps.all Piece.isEmpty = false := by
  rw [renderOwn] at h
  cases n
  case select q =>
    refine Layout.all_isEmpty_statement (c := .keyword) rfl ?_ h
    cases q.distinct <;> rfl
  case delete q => exact Layout.all_isEmpty_statement (c := .keyword) rfl rfl h
  case insert q =>
    rw [layout] at h
    split at h
    · cases h
    · split at h
      · cases h
      · exact Layout.all_isEmpty_statement (c := .into) rfl rfl h
  case update q =>
    rw [layout] at h
    split at h
    · cases h
    · cases h
    · exact Layout.all_isEmpty_statement (c := .keyword) rfl rfl h
  all_goals cases hs

theorem Piece.all_isEmpty_wrapped {w : Bool} {ps : List Piece} (h : ps.all isEmpty = false) :
    (wrapped w ps).all isEmpty = false := by
  rw [wrapped_eq, List.append_assoc]
  exact all_isEmpty_append h

/-- A node leaves some text if there is a node in it that does. -/
theorem Node.all_isEmpty_render_of_walk {d : Dialect} {n k : Node} {nested : Bool}
    {ps : List Piece} (hk : k ∈ n.walk d)
    (hw : ∀ qs, k.renderOwn d = .ok qs → qs.all Piece.isEmpty = false)
    (h : n.render d nested = .ok ps) : ps.all Piece.isEmpty = false := by
  induction n using Node.induction_parts d generalizing nested ps with
  | step n ih =>
      obtain ⟨-, hparts, qs, hqs, rfl⟩ := render_eq_ok h
      refine Piece.all_isEmpty_wrapped ?_
      rw [walk_eq, List.mem_cons, List.mem_flatMap] at hk
      rcases hk with rfl | ⟨m, hm, hk⟩
      · exact hw qs hqs
      · have hwritten : ∀ rs, m.render d n.kind.delimits = .ok rs → rs.all Piece.isEmpty = false :=
          fun rs => ih m hm hk
        obtain ⟨us, vs, around⟩ := Layout.exists_around hqs (hparts ▸ hm) hwritten
        obtain ⟨rs, hrs, rfl⟩ := around.render hqs
        exact Piece.all_isEmpty_append (hwritten rs hrs)

/-- A node leaves some text if there is a statement in it. -/
theorem Node.all_isEmpty_render {d : Dialect} {n k : Node} {nested : Bool} {ps : List Piece}
    (hk : k ∈ n.walk d) (hs : k.kind.isStatement = true) (h : n.render d nested = .ok ps) :
    ps.all Piece.isEmpty = false :=
  all_isEmpty_render_of_walk hk (fun _ => all_isEmpty_renderOwn hs) h

/-- Every node below another one that leaves some text has a place, below the place of that
node. -/
theorem Node.Stands.exists_below {d : Dialect} {n p m k : Node} {o : Option Node}
    {us vs ps : List Piece} (hn : n.render d false = .ok ps) (hp : n.Stands d o us p vs)
    (hm : m ∈ p.parts d) (hk : k ∈ m.walk d)
    (hw : ∀ qs, k.renderOwn d = .ok qs → qs.all Piece.isEmpty = false) :
    ∃ q us vs, n.Stands d (some q) us k vs := by
  induction m using Node.induction_parts d generalizing p o us vs with
  | step m ih =>
      obtain ⟨rs, hrs, -⟩ := exists_renderOwn hn
      obtain ⟨qs, hqs, -⟩ := hp.renderOwn hrs
      have hparts : Item.parts (p.layout d).all = p.parts d :=
        parts_layout (Layout.not_refuses_of_render hqs)
      obtain ⟨before, behind, around⟩ := Layout.exists_around hqs (hparts ▸ hm)
        fun _ => all_isEmpty_render_of_walk hk hw
      have hplace := hp.part around
      rw [walk_eq, List.mem_cons, List.mem_flatMap] at hk
      rcases hk with rfl | ⟨l, hl, hk⟩
      · exact ⟨_, _, _, hplace⟩
      · exact ih l hl hplace hl hk

/-- Every statement below a node has a place, below the place of the node. -/
theorem Node.Stands.exists_part {d : Dialect} {n p m k : Node} {o : Option Node}
    {us vs ps : List Piece} (hn : n.render d false = .ok ps) (hp : n.Stands d o us p vs)
    (hm : m ∈ p.parts d) (hk : k ∈ m.walk d) (hs : k.kind.isStatement = true) :
    ∃ q us vs, n.Stands d (some q) us k vs :=
  exists_below hn hp hm hk fun _ => all_isEmpty_renderOwn hs

/-- Every node of the walk that leaves some text has a place. -/
theorem Node.exists_stands {d : Dialect} {n k : Node} {ps : List Piece}
    (hn : n.render d false = .ok ps) (hk : k ∈ n.walk d)
    (hw : ∀ qs, k.renderOwn d = .ok qs → qs.all Piece.isEmpty = false) :
    ∃ o us vs, n.Stands d o us k vs := by
  rw [walk_eq, List.mem_cons, List.mem_flatMap] at hk
  rcases hk with rfl | ⟨m, hm, hk⟩
  · exact ⟨none, [], [], .root⟩
  · obtain ⟨q, us, vs, hs⟩ := Stands.root.exists_below hn hm hk hw
    exact ⟨some q, us, vs, hs⟩

end SqlTree
