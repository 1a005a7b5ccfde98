import SqlTree.Pass.Rule
import SqlTree.Proofs.Emission.Parts
import SqlTree.Proofs.Passes.Sharing

/-! # Rewriting by a rule

A pass without a state is a map over the tree from the leaves up: each node is built anew around
the results for its children, and the rule is applied to what was built. It fails at the first node,
in the order in which the rule is applied, that the rule refuses or that its slot does not take. -/

namespace SqlTree

/-- The node in a slot after a rule has been applied below and to it. -/
def Slot.rewrite (f : Rule) (s : Slot) : Except Error Node := do s.check (← s.node.rewrite f)

/-! ## Steps without a state -/

namespace Run

variable {α β : Type}

/-- The result of a step without a state. -/
def result (x : Run Unit α) : Except Error α := (x.run ()).1

theorem result_bind (x : Run Unit α) (f : α → Run Unit β) :
    (x >>= f).result = x.result >>= fun a => (f a).result := by
  cases hx : x () with
  | mk r t =>
      have hr : x.result = r := congrArg Prod.fst hx
      rw [hr]
      cases r with
      | error e => exact congrArg Prod.fst (bind_error hx)
      | ok a => exact congrArg Prod.fst (bind_ok hx)

theorem result_mapM (f : α → Run Unit β) (xs : List α) :
    (xs.mapM f).result = xs.mapM fun x => (f x).result := by
  induction xs with
  | nil => rfl
  | cons x xs ih =>
      simp only [List.mapM_cons, result_bind, ih]
      rfl

end Run

section Rewrite

variable (f : Rule)

theorem Slot.rewrite_eq (s : Slot) : s.rewrite f = ((Pass.ofRule f).visitSlot s).result := by
  rw [Pass.visitSlot, Run.result_bind]
  rfl

/-- A rule is applied to the node rebuilt around what comes of its children. -/
theorem Node.rewrite_eq (n : Node) :
    n.rewrite f = n.slots.mapM (Slot.rewrite f) >>= fun cs => f.result (n.fill cs) := by
  have hs : Slot.rewrite f = fun s => ((Pass.ofRule f).visitSlot s).result :=
    funext (Slot.rewrite_eq f)
  have hv (x : Run Unit Node) :
      ((Pass.ofRule f).visit n x).result = x.result >>= f.result := by
    rw [Pass.visit]
    simp only [Run.result_bind]
    rfl
  change (n.apply (.ofRule f)).result = _
  rw [apply_eq, hv, hs, ← Run.result_mapM, map_eq_pure_bind, Run.result_bind, bind_assoc]
  rfl

/-! ## Success -/

theorem Slot.rewrite_eq_ok {s : Slot} {m : Node} :
    s.rewrite f = .ok m ↔ s.node.rewrite f = .ok m ∧ s.Takes m := by
  rw [rewrite]
  cases s.node.rewrite f with
  | error e =>
      change Except.error e = Except.ok m ↔ _
      simp
  | ok k =>
      change s.check k = .ok m ↔ _
      rw [check_eq_ok, Except.ok.injEq]
      constructor
      · rintro ⟨ht, rfl⟩
        exact ⟨rfl, ht⟩
      · rintro ⟨rfl, ht⟩
        exact ⟨ht, rfl⟩

theorem Node.admits_of_mapM_rewrite {n : Node} {cs : List Node}
    (h : n.slots.mapM (Slot.rewrite f) = .ok cs) : n.Admits cs :=
  (mapM_eq_ok.mp h).imp fun _ _ hs => ((Slot.rewrite_eq_ok f).mp hs).2

/-- The node that a rule is applied to is the only one rebuilt around what comes of the
children. -/
theorem Node.rebuilt_iff_eq_fill {n : Node} {cs : List Node}
    (h : n.slots.mapM (Slot.rewrite f) = .ok cs) (k : Node) : n.Rebuilt cs k ↔ k = n.fill cs := by
  constructor
  · exact Rebuilt.eq_fill
  · rintro rfl
    exact rebuilt_fill (admits_of_mapM_rewrite f h)

/-! ## Failure -/

theorem refusal?_mapM {α β : Type} (g : α → Except Error β) (xs : List α) :
    refusal? (xs.mapM g) = xs.findSome? fun x => refusal? (g x) := by
  induction xs with
  | nil => rfl
  | cons x xs ih =>
      rw [List.mapM_cons, List.findSome?_cons]
      cases g x with
      | error e => rfl
      | ok y =>
          change refusal? (xs.mapM g >>= fun ys => pure (y :: ys)) = _
          rw [← map_eq_pure_bind]
          exact (refusal?_map _ _).trans ih

/-- What is wrong at a slot, once all is well below it: the rule refuses the node, or the slot does
not take what the rule makes of it. -/
def Slot.fault? (s : Slot) : Option Error :=
  match s.node.slots.mapM (Slot.rewrite f) with
  | .error _ => none
  | .ok cs =>
    match f.result (s.node.fill cs) with
    | .error e => some e
    | .ok m => s.kind?.bind fun k => if m.kind = k then none else some (.mismatch k m.kind)

/-- The slots of a tree in the order in which a rule is applied to the nodes in them. -/
def Slot.stops (s : Slot) : List Slot :=
  s.node.slots.attach.flatMap (fun t => t.1.stops) ++ [s]
termination_by sizeOf s.node
decreasing_by exact Node.sizeOf_lt_of_mem_slots t.2

theorem Slot.stops_eq (s : Slot) : s.stops = s.node.slots.flatMap stops ++ [s] := by
  rw [stops]
  simp [List.flatMap_subtype]

theorem Slot.refusal?_check (s : Slot) (m : Node) :
    refusal? (s.check m) =
      s.kind?.bind fun k => if m.kind = k then none else some (.mismatch k m.kind) := by
  cases hk : s.kind? with
  | none => simp [check, hk, refusal?]
  | some k => by_cases h : m.kind = k <;> simp [check, Node.expect, hk, h, refusal?]

theorem findSome?_flatMap {α β γ : Type} (g : β → Option γ) (h : α → List β) (xs : List α) :
    (xs.flatMap h).findSome? g = xs.findSome? fun x => (h x).findSome? g := by
  induction xs with
  | nil => rfl
  | cons x xs ih =>
      rw [List.flatMap_cons, List.findSome?_append, ih, List.findSome?_cons]
      cases (h x).findSome? g <;> rfl

theorem findSome?_congr {α β : Type} {g h : α → Option β} {xs : List α}
    (hgh : ∀ x ∈ xs, g x = h x) : xs.findSome? g = xs.findSome? h := by
  induction xs with
  | nil => rfl
  | cons x xs ih =>
      obtain ⟨hx, hxs⟩ := List.forall_mem_cons.mp hgh
      rw [List.findSome?_cons, List.findSome?_cons, hx, ih hxs]

theorem Slot.refusal?_rewrite (s : Slot) :
    refusal? (s.rewrite f) = s.stops.findSome? (fault? f) := by
  have h (n : Node) : ∀ k, refusal? (rewrite f ⟨k, n⟩) = (stops ⟨k, n⟩).findSome? (fault? f) := by
    induction n using Node.induction_slots with
    | step n ih =>
        intro k
        have hs : refusal? (n.slots.mapM (rewrite f)) =
            (n.slots.flatMap stops).findSome? (fault? f) := by
          rw [refusal?_mapM, findSome?_flatMap]
          exact findSome?_congr fun s hs => ih s hs s.kind?
        rw [stops_eq, List.findSome?_append, ← hs, rewrite, Node.rewrite_eq,
          List.findSome?_singleton, fault?]
        cases n.slots.mapM (rewrite f) with
        | error e => rfl
        | ok cs =>
            change refusal? (f.result (n.fill cs) >>= fun m => check ⟨k, n⟩ m) = _
            cases hr : f.result (n.fill cs) with
            | error e => simp [hr]; rfl
            | ok m => simp [hr]; exact refusal?_check _ m
  exact h s.node s.kind?

theorem Node.rewrite_eq_error {n : Node} {e : Error} :
    n.rewrite f = .error e ↔ (Slot.stops ⟨none, n⟩).findSome? (Slot.fault? f) = some e := by
  have hroot : Slot.rewrite f ⟨none, n⟩ = n.rewrite f := by
    rw [Slot.rewrite]
    cases n.rewrite f <;> rfl
  rw [← Slot.refusal?_rewrite, hroot]
  cases n.rewrite f <;> simp [refusal?]

/-- A rewriting fails with what the rule says of a node, word for word, or because the node that
the rule gives is of another kind than the one its slot takes. -/
theorem Node.rewrite_error_cases {n : Node} {e : Error} (h : n.rewrite f = .error e) :
    (∃ m, f m = .error e) ∨
      ∃ k m r, f.result m = .ok r ∧ r.kind ≠ k ∧ e = .mismatch k r.kind := by
  obtain ⟨s, -, hs⟩ := List.exists_of_findSome?_eq_some ((rewrite_eq_error f).mp h)
  rw [Slot.fault?] at hs
  cases hc : s.node.slots.mapM (Slot.rewrite f) with
  | error _ => simp [hc] at hs
  | ok cs =>
      cases hr : f.result (s.node.fill cs) with
      | error _ =>
          simp only [hc, hr, Option.some.injEq] at hs
          exact .inl ⟨s.node.fill cs, Rule.result_eq_error.mp (hs ▸ hr)⟩
      | ok r =>
          simp only [hc, hr] at hs
          obtain ⟨k, -, hk⟩ := Option.bind_eq_some_iff.mp hs
          by_cases hkind : r.kind = k
          · rw [if_pos hkind] at hk
            cases hk
          · rw [if_neg hkind, Option.some.injEq] at hk
            exact .inr ⟨k, _, r, hr, hkind, hk.symm⟩

/-- A column in the list of an INSERT may not become a value, one in a predicate may. -/
example :
    let zero : Node := .value (.int 0) false
    let id : Node := .column ⟨⟨"id"⟩⟩
    let insert : Node := .insert { into := ⟨none, ⟨"t"⟩⟩, columns := some [⟨⟨"id"⟩⟩] }
    ((insert.apply (.replace .column zero)).run ()).1 = .error (.mismatch .column .value) ∧
    (((Node.binary id .eq id).apply (.replace .column zero)).run ()).1 =
      .ok (.binary zero .eq zero) ∧
    ((insert.apply (.refuse .column "names personal data")).run ()).1 =
      .error (.invalid .column (.other "names personal data")) := ⟨rfl, rfl, rfl⟩

/-- A rule that refuses no node and keeps the kind of each fits every slot. -/
theorem Node.exists_rewrite (h : ∀ m, ∃ k, f.result m = .ok k ∧ k.kind = m.kind) (n : Node) :
    ∃ m, n.rewrite f = .ok m ∧ m.kind = n.kind := by
  induction n using induction_slots with
  | step n ih =>
      have hs : refusal? (n.slots.mapM (Slot.rewrite f)) = none := by
        rw [refusal?_mapM, List.findSome?_eq_none_iff]
        intro s hs
        obtain ⟨m, hm, hk⟩ := ih s hs
        have ht : s.Takes m := fun k hs' => hk.trans (takes_of_mem_slots hs k hs')
        rw [(Slot.rewrite_eq_ok f).mpr ⟨hm, ht⟩, refusal?]
      cases hc : n.slots.mapM (Slot.rewrite f) with
      | error e =>
          rw [hc] at hs
          cases hs
      | ok cs =>
          obtain ⟨m, hm, hk⟩ := h (n.fill cs)
          refine ⟨m, ?_, hk.trans (kind_refill _ _)⟩
          rw [rewrite_eq, hc]
          exact hm

theorem Node.exists_apply_rename (old new : String) (n : Node) :
    ∃ m, ((n.apply (.rename old new)).run ()).1 = .ok m ∧ m.kind = n.kind := by
  refine exists_rewrite _ (fun m => ?_) n
  cases m
  case identifier i => by_cases h : i.name = old <;> simp [Rule.result, Except.map, h, kind]
  all_goals exact ⟨_, rfl, rfl⟩

/-! ## Keeping everything -/

/-- A pass that keeps every node gives back the tree. -/
theorem Node.apply_identity (n : Node) : n.apply .identity = pure n := by
  induction n using induction_slots with
  | step n ih =>
      have hs : ∀ s ∈ n.slots, Pass.identity.visitSlot s = pure s.node := by
        intro s hs
        have hc : s.check s.node = .ok s.node := Slot.check_eq_ok.mpr ⟨takes_of_mem_slots hs, rfl⟩
        rw [Pass.visitSlot, ih s hs, pure_bind, hc]
        rfl
      have hm : n.slots.mapM Pass.identity.visitSlot = pure n.contents := by
        rw [mapM_congr hs]
        exact List.mapM_pure
      rw [apply_eq, hm, map_pure, fill_contents]
      rfl

/-- A rewriting applies the rule to each node rebuilt around what comes of its children, the one
node with the same scalars and those in its slots. It fails with the first fault in the order in
which the rule is applied. Keeping what has not changed makes no difference to a pass, and a pass
that keeps every node gives back the tree. -/
theorem Node.rewrite_bottomUp (n : Node) :
    (match n.slots.mapM (Slot.rewrite f) with
      | .ok cs => ∃ m, (∀ k, n.Rebuilt cs k ↔ k = m) ∧ n.rewrite f = f.result m
      | .error e => n.rewrite f = .error e) ∧
    (∀ e, n.rewrite f = .error e ↔
      (Slot.stops ⟨none, n⟩).findSome? (Slot.fault? f) = some e) ∧
    (∀ (σ : Type) (p : Pass σ) (same : Sameness σ), n.applyShared p same = n.apply p) ∧
    n.apply .identity = pure n := by
  refine ⟨?_, fun e => rewrite_eq_error f, fun σ p same => applyShared_eq_apply p same n,
    apply_identity n⟩
  have hn := rewrite_eq f n
  cases hc : n.slots.mapM (Slot.rewrite f) with
  | error e =>
      rw [hc] at hn
      exact hn
  | ok cs =>
      rw [hc] at hn
      exact ⟨n.fill cs, rebuilt_iff_eq_fill f hc, hn⟩

end Rewrite

end SqlTree
