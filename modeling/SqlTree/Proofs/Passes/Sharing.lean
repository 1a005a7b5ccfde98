import SqlTree.Proofs.Passes.Steps

/-! # Keeping what has not changed

A pass need not build anew what is the same as before: if no node of a field has changed, the field
is kept, and if no field of a node has, the node is kept. The tree that comes out is equal. -/

namespace SqlTree

variable {σ : Type}

/-- A test for nodes that are the same, such as a comparison of addresses. It may look at the state
of the pass, and it never takes a node for another one. -/
structure Sameness (σ : Type) where
  test : σ → Node → Node → Bool
  sound : ∀ s m n, test s m n = true → m = n

namespace Sameness

variable (same : Sameness σ)

/-- The node in a slot after a visit, and whether it has changed. A node that is the same is known
to fit. -/
def visit (s : Slot) (visited : Run σ Node) : Run σ (Node × Bool) := do
  let n ← visited
  if same.test (← get) s.node n then return (s.node, false) else return (← s.check n, true)

/-- The nodes of a field: those that were there, unless one has changed. -/
def field (ss : List Slot) (rs : List (Node × Bool)) : List Node × Bool :=
  if rs.any (·.2) then (rs.map (·.1), true) else (ss.map Slot.node, false)

/-- The node around some fields: the one that was there, unless one has changed. -/
def node (n : Node) (fs : List (List Node × Bool)) : Node :=
  if fs.any (·.2) then n.refill (fs.map (·.1)) else n

end Sameness

/-- The tree after a pass over it that keeps what has not changed. -/
def Node.applyShared (p : Pass σ) (same : Sameness σ) (n : Node) : Run σ Node :=
  p.visit n do
    let fs ← n.fields.attach.mapM fun ss => do
      let rs ← ss.1.attach.mapM fun s => same.visit s.1 (s.1.node.applyShared p same)
      return Sameness.field ss.1 rs
    return Sameness.node n fs
termination_by sizeOf n
decreasing_by exact sizeOf_lt_of_mem_slots (List.mem_flatten.mpr ⟨ss.1, ss.2, s.2⟩)

theorem Node.applyShared_eq (p : Pass σ) (same : Sameness σ) (n : Node) :
    n.applyShared p same = p.visit n (Sameness.node n <$> n.fields.mapM fun ss =>
      Sameness.field ss <$> ss.mapM fun s => same.visit s (s.node.applyShared p same)) := by
  rw [applyShared]
  simp only [← map_eq_pure_bind,
    mapM_attach _ fun s : Slot => same.visit s (s.node.applyShared p same)]
  rw [mapM_attach n.fields fun ss =>
    Sameness.field ss <$> ss.mapM fun s => same.visit s (s.node.applyShared p same)]

/-! ## The result -/

namespace Sameness

variable (same : Sameness σ) {s : Slot}

/-- A visit that may keep the node leaves the same node in the slot. -/
theorem map_visit (hs : s.Takes s.node) (visited : Run σ Node) :
    (·.1) <$> same.visit s visited = (do s.check (← visited)) := by
  rw [visit, map_bind]
  refine bind_congr fun n => funext fun t => ?_
  by_cases h : same.test t s.node n = true
  · obtain rfl := same.sound t s.node n h
    have hc : s.check s.node = .ok s.node := Slot.check_eq_ok.mpr ⟨hs, rfl⟩
    rw [hc]
    change ((·.1) <$> (if same.test t s.node s.node then _ else _ : Run σ (Node × Bool))) t = _
    rw [if_pos h]
    rfl
  · change ((·.1) <$> (if same.test t s.node n then _ else _ : Run σ (Node × Bool))) t = _
    rw [if_neg h]
    cases s.check n <;> rfl

theorem ensures_visit (visited : Run σ Node) :
    Run.Ensures (fun r => r.2 = false → r.1 = s.node) (same.visit s visited) := by
  refine (Run.ensures_true visited).bind fun n _ => (Run.ensures_true _).bind fun t _ => ?_
  by_cases h : same.test t s.node n = true
  · rw [if_pos h]
    exact Run.ensures_pure fun _ => rfl
  · rw [if_neg h]
    exact (Run.ensures_true _).bind fun m _ => Run.ensures_pure nofun

/-- What has not changed among some results is what was there. -/
theorem map_fst_eq {α β : Type} {f : α → β} {as : List α} {rs : List (β × Bool)}
    (h : List.Forall₂ (fun a r => r.2 = false → r.1 = f a) as rs) (hr : rs.any (·.2) = false) :
    rs.map (·.1) = as.map f := by
  induction h with
  | nil => rfl
  | cons ha _ ih =>
      simp only [List.any_cons, Bool.or_eq_false_iff] at hr
      rw [List.map_cons, List.map_cons, ha hr.1, ih hr.2]

theorem field_fst {ss : List Slot} {rs : List (Node × Bool)}
    (h : List.Forall₂ (fun s r => r.2 = false → r.1 = s.node) ss rs) :
    (field ss rs).1 = rs.map (·.1) := by
  by_cases hr : rs.any (·.2) = true
  · rw [field, if_pos hr]
  · rw [field, if_neg hr, map_fst_eq h (Bool.eq_false_of_not_eq_true hr)]

theorem field_snd (ss : List Slot) (rs : List (Node × Bool)) :
    (field ss rs).2 = false → (field ss rs).1 = ss.map Slot.node := by
  by_cases hr : rs.any (·.2) = true
  · rw [field, if_pos hr]
    nofun
  · rw [field, if_neg hr]
    exact fun _ => rfl

theorem node_eq {n : Node} {fs : List (List Node × Bool)}
    (h : List.Forall₂ (fun ss f => f.2 = false → f.1 = ss.map Slot.node) n.fields fs) :
    node n fs = n.refill (fs.map (·.1)) := by
  by_cases hf : fs.any (·.2) = true
  · rw [node, if_pos hf]
  · have hg : fs.map (·.1) = n.groups := map_fst_eq h (Bool.eq_false_of_not_eq_true hf)
    rw [node, if_neg hf, hg, Node.refill_groups rfl rfl]

end Sameness

/-- Keeping what has not changed does not change what comes out. -/
theorem Node.applyShared_eq_apply (p : Pass σ) (same : Sameness σ) (n : Node) :
    n.applyShared p same = n.apply p := by
  induction n using induction_slots with
  | step n ih =>
      let visited (s : Slot) : Run σ (Node × Bool) := same.visit s (s.node.applyShared p same)
      let kept (ss : List Slot) : Run σ (List Node × Bool) := Sameness.field ss <$> ss.mapM visited
      have hslots (ss : List Slot) : Run.Ensures
          (List.Forall₂ (fun s r => r.2 = false → r.1 = s.node) ss) (ss.mapM visited) :=
        Run.ensures_mapM fun s _ => same.ensures_visit (s := s) _
      have hkept (ss : List Slot) :
          Run.Ensures (fun f => f.2 = false → f.1 = ss.map Slot.node) (kept ss) :=
        (hslots ss).map fun rs _ => Sameness.field_snd ss rs
      have hfield : ∀ ss ∈ n.fields, (·.1) <$> kept ss = ss.mapM p.visitSlot := by
        intro ss hss
        calc (·.1) <$> kept ss
          _ = List.map (·.1) <$> ss.mapM visited := by
            rw [← comp_map]
            exact (hslots ss).map_congr fun rs hrs => Sameness.field_fst hrs
          _ = ss.mapM p.visitSlot := by
            rw [map_mapM]
            refine mapM_congr fun s hs => ?_
            have hmem : s ∈ n.slots := List.mem_flatten.mpr ⟨ss, hss, hs⟩
            rw [same.map_visit (takes_of_mem_slots hmem), ih s hmem]
            rfl
      have hnode : Sameness.node n <$> n.fields.mapM kept =
          n.refill <$> n.fields.mapM (·.mapM p.visitSlot) := by
        calc Sameness.node n <$> n.fields.mapM kept
          _ = n.refill <$> List.map (·.1) <$> n.fields.mapM kept := by
            rw [← comp_map]
            exact (Run.ensures_mapM fun ss _ => hkept ss).map_congr fun fs hfs =>
              Sameness.node_eq hfs
          _ = n.refill <$> n.fields.mapM (·.mapM p.visitSlot) := by
            rw [map_mapM, mapM_congr hfield]
      rw [applyShared_eq, hnode, ← apply_eq_refill]

end SqlTree
