import SqlTree.Pass.Rule
import SqlTree.Proofs.Passes.Steps

/-! # The calls of a pass

A pass is called at every node: to enter it, with the node rebuilt around what came of the slots,
and to leave it. A complete visit makes these calls for each node of the tree. A pass that fails
makes the first of them only, and the failing one is the last. -/

namespace SqlTree

open List

/-- A call to a pass, with the node that it is given. -/
inductive Visit where
  | enter (n : Node)
  | substitute (n : Node)
  | leave (n : Node)

namespace Visit

def entered? : Visit → Option Node
  | .enter n => some n
  | _ => none

def left? : Visit → Option Node
  | .leave n => some n
  | _ => none

def isSubstitute : Visit → Bool
  | .substitute _ => true
  | _ => false

theorem countP_isSubstitute_node (n m : Node) (cs ds : List Visit) :
    (enter n :: cs ++ [substitute m, leave n] ++ ds).countP isSubstitute =
      cs.countP isSubstitute + 1 + ds.countP isSubstitute := by
  simp [isSubstitute, countP_cons]
  omega

end Visit

namespace Pass

variable {σ : Type}

/-- A pass that writes down its calls in their order. -/
def recorded (p : Pass σ) : Pass (List Visit × σ) where
  enter n s := (s.1 ++ [.enter n], p.enter n s.2)
  substitute n s :=
    let (answer, t) := (p.substitute n).run s.2
    (answer, s.1 ++ [.substitute n], t)
  leave n s := (s.1 ++ [.leave n], p.leave n s.2)

/-- A complete visit of some slots from a state: the calls made, the nodes that are left in the
slots, and the state at the end. -/
inductive Visits (p : Pass σ) : σ → List Slot → List Visit → List Node → σ → Prop where
  | nil (s : σ) : Visits p s [] [] [] s
  | cons {s t u v : σ} {x : Slot} {ss : List Slot} {cs ds : List Visit} {ms ns : List Node}
      {m : Node} {a : Option Node} (below : Visits p (p.enter x.node s) x.node.slots cs ms t)
      (rebuilt : x.node.Rebuilt ms m) (answer : (p.substitute m).run t = (.ok a, u))
      (takes : x.Takes (a.getD m)) (after : Visits p (p.leave x.node u) ss ds ns v) :
      Visits p s (x :: ss) (.enter x.node :: cs ++ [.substitute m, .leave x.node] ++ ds)
        (a.getD m :: ns) v

/-- A visit of some slots that fails: the calls made, the error, and the state at the end. The last
call is the one that fails, or the one that leaves a node whose slot does not take what came of
it. -/
inductive Stops (p : Pass σ) : σ → List Slot → List Visit → Error → σ → Prop where
  | inside {s t : σ} {x : Slot} {ss : List Slot} {cs : List Visit} {e : Error}
      (below : Stops p (p.enter x.node s) x.node.slots cs e t) :
      Stops p s (x :: ss) (.enter x.node :: cs) e t
  | refused {s t u : σ} {x : Slot} {ss : List Slot} {cs : List Visit} {ms : List Node} {m : Node}
      {e : Error} (below : Visits p (p.enter x.node s) x.node.slots cs ms t)
      (rebuilt : x.node.Rebuilt ms m) (answer : (p.substitute m).run t = (.error e, u)) :
      Stops p s (x :: ss) (.enter x.node :: cs ++ [.substitute m]) e u
  | mismatch {s t u : σ} {x : Slot} {ss : List Slot} {cs : List Visit} {ms : List Node} {m : Node}
      {a : Option Node} {k : Kind} (below : Visits p (p.enter x.node s) x.node.slots cs ms t)
      (rebuilt : x.node.Rebuilt ms m) (answer : (p.substitute m).run t = (.ok a, u))
      (expected : x.kind? = some k) (found : (a.getD m).kind ≠ k) :
      Stops p s (x :: ss) (.enter x.node :: cs ++ [.substitute m, .leave x.node])
        (.mismatch k (a.getD m).kind) (p.leave x.node u)
  | later {s t u v : σ} {x : Slot} {ss : List Slot} {cs ds : List Visit} {ms : List Node}
      {m : Node} {a : Option Node} {e : Error}
      (below : Visits p (p.enter x.node s) x.node.slots cs ms t) (rebuilt : x.node.Rebuilt ms m)
      (answer : (p.substitute m).run t = (.ok a, u)) (takes : x.Takes (a.getD m))
      (after : Stops p (p.leave x.node u) ss ds e v) :
      Stops p s (x :: ss) (.enter x.node :: cs ++ [.substitute m, .leave x.node] ++ ds) e v

/-! ## Running a pass over a slot -/

section Slots

variable {p : Pass σ} {x : Slot} {s t u : σ} {ms : List Node} {a : Option Node} {e : Error}

theorem visitSlot_eq (p : Pass σ) (x : Slot) : p.visitSlot x = (do
    modify (p.enter x.node)
    let ms ← x.node.slots.mapM p.visitSlot
    let a ← p.substitute (x.node.fill ms)
    modify (p.leave x.node)
    x.check (a.getD (x.node.fill ms))) := by
  rw [visitSlot, Node.apply_eq, visit]
  simp

theorem visitSlot_of_inside
    (h : (x.node.slots.mapM p.visitSlot) (p.enter x.node s) = (.error e, t)) :
    (p.visitSlot x) s = (.error e, t) := by
  rw [visitSlot_eq]
  exact (Run.bind_ok rfl).trans (Run.bind_error h)

theorem visitSlot_of_refused
    (h : (x.node.slots.mapM p.visitSlot) (p.enter x.node s) = (.ok ms, t))
    (ha : (p.substitute (x.node.fill ms)) t = (.error e, u)) :
    (p.visitSlot x) s = (.error e, u) := by
  rw [visitSlot_eq]
  exact (Run.bind_ok h).trans (Run.bind_error ha)

theorem visitSlot_of_answered
    (h : (x.node.slots.mapM p.visitSlot) (p.enter x.node s) = (.ok ms, t))
    (ha : (p.substitute (x.node.fill ms)) t = (.ok a, u)) :
    (p.visitSlot x) s = (x.check (a.getD (x.node.fill ms)), p.leave x.node u) := by
  rw [visitSlot_eq]
  exact (Run.bind_ok h).trans (Run.bind_ok ha)

end Slots

section Lists

variable {p : Pass σ} {x : Slot} {s t u : σ} {m : Node} {ms : List Node} {e : Error}

theorem mapM_cons_of_first (ss : List Slot) (h : (p.visitSlot x) s = (.error e, t)) :
    ((x :: ss).mapM p.visitSlot) s = (.error e, t) := by
  rw [mapM_cons]
  exact Run.bind_error h

theorem mapM_cons_of_later {ss : List Slot} (h : (p.visitSlot x) s = (.ok m, t))
    (hs : (ss.mapM p.visitSlot) t = (.error e, u)) :
    ((x :: ss).mapM p.visitSlot) s = (.error e, u) := by
  rw [mapM_cons]
  exact (Run.bind_ok h).trans (Run.bind_error hs)

theorem mapM_cons_of_all {ss : List Slot} (h : (p.visitSlot x) s = (.ok m, t))
    (hs : (ss.mapM p.visitSlot) t = (.ok ms, u)) :
    ((x :: ss).mapM p.visitSlot) s = (.ok (m :: ms), u) := by
  rw [mapM_cons]
  exact (Run.bind_ok h).trans (Run.bind_ok hs)

end Lists

/-! ## What a run does -/

section Runs

variable {p : Pass σ} {ss : List Slot} {s t : σ} {cs : List Visit} {ms : List Node} {e : Error}

theorem Visits.fits (h : p.Visits s ss cs ms t) : Forall₂ Slot.Takes ss ms := by
  induction h with
  | nil => exact .nil
  | cons _ _ _ takes _ _ ih => exact .cons takes ih

theorem Visits.run (h : p.Visits s ss cs ms t) : (ss.mapM p.visitSlot) s = (.ok ms, t) := by
  induction h with
  | nil => rfl
  | cons below rebuilt answer takes after ih ihs =>
      obtain rfl := rebuilt.eq_fill
      have hx := visitSlot_of_answered ih answer
      rw [Slot.check_eq_ok.mpr ⟨takes, rfl⟩] at hx
      exact mapM_cons_of_all hx ihs

theorem Stops.run (h : p.Stops s ss cs e t) : (ss.mapM p.visitSlot) s = (.error e, t) := by
  induction h with
  | inside _ ih => exact mapM_cons_of_first _ (visitSlot_of_inside ih)
  | refused below rebuilt answer =>
      obtain rfl := rebuilt.eq_fill
      exact mapM_cons_of_first _ (visitSlot_of_refused below.run answer)
  | mismatch below rebuilt answer expected found =>
      obtain rfl := rebuilt.eq_fill
      have hx := visitSlot_of_answered below.run answer
      rw [Slot.check_eq_error.mpr ⟨_, expected, found, rfl⟩] at hx
      exact mapM_cons_of_first _ hx
  | later below rebuilt answer takes _ ih =>
      obtain rfl := rebuilt.eq_fill
      have hx := visitSlot_of_answered below.run answer
      rw [Slot.check_eq_ok.mpr ⟨takes, rfl⟩] at hx
      exact mapM_cons_of_later hx ih

theorem recorded_leave (n : Node) (ds : List Visit) (s : σ) :
    p.recorded.leave n (ds, s) = (ds ++ [.leave n], p.leave n s) := rfl

theorem recorded_substitute {m : Node} {answer : Except Error (Option Node)} {u : σ}
    (h : (p.substitute m).run t = (answer, u)) (ds : List Visit) :
    p.recorded.substitute m (ds, t) = (answer, ds ++ [.substitute m], u) := by
  simp [recorded, h]

/-- A recorded run makes a complete visit, or one that fails. -/
theorem run_recorded (p : Pass σ) (ss : List Slot) (ds : List Visit) (s : σ) : ∃ cs t,
    (∃ ms, p.Visits s ss cs ms t ∧
      (ss.mapM p.recorded.visitSlot) (ds, s) = (.ok ms, ds ++ cs, t)) ∨
    (∃ e, p.Stops s ss cs e t ∧
      (ss.mapM p.recorded.visitSlot) (ds, s) = (.error e, ds ++ cs, t)) := by
  induction ss using Slot.induction generalizing ds s with
  | nil => exact ⟨[], s, .inl ⟨[], .nil s, by simp; rfl⟩⟩
  | cons x ss ih ihs =>
      obtain ⟨cs, t, ⟨ms, hv, hr⟩ | ⟨e, hv, hr⟩⟩ := ih (ds ++ [.enter x.node]) (p.enter x.node s)
      swap
      · have hx := mapM_cons_of_first ss (visitSlot_of_inside (s := (ds, s)) hr)
        exact ⟨_, t, .inr ⟨e, .inside hv, by simpa using hx⟩⟩
      have hm : x.node.Rebuilt ms (x.node.fill ms) := Node.rebuilt_fill hv.fits
      cases ha : (p.substitute (x.node.fill ms)).run t with
      | mk answer u =>
          have hrec := recorded_substitute ha (ds ++ [.enter x.node] ++ cs)
          cases answer with
          | error e =>
              have hx := mapM_cons_of_first ss (visitSlot_of_refused (s := (ds, s)) hr hrec)
              exact ⟨_, u, .inr ⟨e, .refused hv hm ha, by simpa using hx⟩⟩
          | ok a =>
              have hx := visitSlot_of_answered (s := (ds, s)) hr hrec
              rw [recorded_leave] at hx
              cases hc : x.check (a.getD (x.node.fill ms)) with
              | error e =>
                  obtain ⟨k, hk, hne, rfl⟩ := Slot.check_eq_error.mp hc
                  rw [hc] at hx
                  have hxs := mapM_cons_of_first ss hx
                  exact ⟨_, _, .inr ⟨_, .mismatch hv hm ha hk hne, by simpa using hxs⟩⟩
              | ok m =>
                  obtain ⟨ht, rfl⟩ := Slot.check_eq_ok.mp hc
                  rw [hc] at hx
                  obtain ⟨cs', v, ⟨ns, hv', hr'⟩ | ⟨e, hv', hr'⟩⟩ := ihs
                    (ds ++ [.enter x.node] ++ cs ++ [.substitute (x.node.fill ms)] ++
                      [.leave x.node]) (p.leave x.node u)
                  · have hxs := mapM_cons_of_all hx hr'
                    exact ⟨_, v, .inl ⟨_, .cons hv hm ha ht hv', by simpa using hxs⟩⟩
                  · have hxs := mapM_cons_of_later hx hr'
                    exact ⟨_, v, .inr ⟨e, .later hv hm ha ht hv', by simpa using hxs⟩⟩

end Runs

/-! ## Every node once -/

section Nodes

variable {p : Pass σ} {ss : List Slot} {s t : σ} {cs : List Visit} {ms : List Node}

/-- A way to pick one of the three calls at each node picks each node once. -/
theorem Visits.filterMap_perm (h : p.Visits s ss cs ms t) (pick : Visit → Option Node)
    (hp : ∀ n m, [Visit.enter n, .substitute m, .leave n].filterMap pick = [n]) :
    cs.filterMap pick ~ ss.flatMap (·.node.nodes) := by
  induction h with
  | nil => rfl
  | @cons s t u v x ss cs ds ms ns m a below rebuilt answer takes after ih ihs =>
      have hcalls : Visit.enter x.node :: cs ++ [Visit.substitute m, .leave x.node] ++ ds ~
          [Visit.enter x.node, .substitute m, .leave x.node] ++ cs ++ ds :=
        (Perm.cons (Visit.enter x.node) perm_append_comm).append_right ds
      have hbelow : cs.filterMap pick ~ x.node.children.flatMap Node.nodes := by
        have hc : x.node.slots.flatMap (·.node.nodes) = x.node.contents.flatMap Node.nodes := by
          rw [Node.contents, flatMap_map]
        rw [hc] at ih
        exact ih.trans (x.node.contents_perm_children.flatMap_right Node.nodes)
      calc (Visit.enter x.node :: cs ++ [Visit.substitute m, .leave x.node] ++ ds).filterMap pick
        _ ~ ([Visit.enter x.node, .substitute m, .leave x.node] ++ cs ++ ds).filterMap pick :=
          hcalls.filterMap pick
        _ = (x.node :: cs.filterMap pick) ++ ds.filterMap pick := by
          rw [filterMap_append, filterMap_append, hp]
          rfl
        _ ~ (x.node :: x.node.children.flatMap Node.nodes) ++ ss.flatMap (·.node.nodes) :=
          (hbelow.cons x.node).append ihs
        _ = (x :: ss).flatMap (·.node.nodes) := by
          rw [flatMap_cons, Node.nodes_eq]

/-- There are as many substitutions as nodes. -/
theorem Visits.countP_isSubstitute (h : p.Visits s ss cs ms t) :
    cs.countP Visit.isSubstitute = (ss.flatMap (·.node.nodes)).length := by
  have hlen := (h.filterMap_perm Visit.entered? fun _ _ => rfl).length_eq
  rw [← hlen]
  clear hlen
  induction h with
  | nil => rfl
  | cons below rebuilt answer takes after ih ihs =>
      rw [Visit.countP_isSubstitute_node, ih, ihs]
      simp [Visit.entered?, filterMap_cons]
      omega

end Nodes

/-! ## Failing early -/

/-- The pass with a number of answers left. When there are none it keeps every node. -/
def rationed (p : Pass σ) : Pass (Nat × σ) where
  enter n s := (s.1, p.enter n s.2)
  substitute n s :=
    match s.1 with
    | 0 => (.ok none, 0, s.2)
    | k + 1 =>
      let (answer, t) := (p.substitute n).run s.2
      (answer, k, t)
  leave n s := (s.1, p.leave n s.2)

section Prefixes

variable {p : Pass σ} {ss : List Slot} {s t : σ} {cs : List Visit} {ms : List Node} {e : Error}

theorem rationed_answer {m : Node} {answer : Except Error (Option Node)} {u : σ}
    (h : (p.substitute m).run t = (answer, u)) (k : Nat) :
    (p.rationed.substitute m).run (k + 1, t) = (answer, k, u) := by
  change (let (answer, t) := (p.substitute m).run t; (answer, k, t)) = _
  rw [h]

/-- With as many answers as it gives, a pass makes the same visit. -/
theorem Visits.rationed (h : p.Visits s ss cs ms t) (k : Nat) :
    p.rationed.Visits (k + cs.countP Visit.isSubstitute, s) ss cs ms (k, t) := by
  induction h generalizing k with
  | nil => exact .nil _
  | @cons s t u v x ss cs ds ms ns m a below rebuilt answer takes after ih ihs =>
      have hcount : k + (Visit.enter x.node :: cs ++ [Visit.substitute m, .leave x.node] ++
          ds).countP Visit.isSubstitute =
          k + ds.countP Visit.isSubstitute + 1 + cs.countP Visit.isSubstitute := by
        rw [Visit.countP_isSubstitute_node]
        omega
      rw [hcount]
      exact .cons (ih _) rebuilt (rationed_answer answer _) takes (ihs k)

/-- Without an answer left for it, a node is kept. -/
theorem Visits.keep {x : Slot} {m : Node} {u : σ} {ds : List Visit} {ns : List Node} {k : Nat}
    (below : p.rationed.Visits (k, p.enter x.node s) x.node.slots cs ms (0, t))
    (rebuilt : x.node.Rebuilt ms m) (hx : x.Takes x.node)
    (after : p.rationed.Visits (0, p.leave x.node t) ss ds ns (0, u)) :
    p.rationed.Visits (k, s) (x :: ss)
      (.enter x.node :: cs ++ [.substitute m, .leave x.node] ++ ds) (m :: ns) (0, u) := by
  have ht : x.Takes m := fun j hj => rebuilt.kind.trans (hx j hj)
  exact .cons (s := (k, s)) (a := none) below rebuilt rfl ht after

/-- Without answers left, a pass visits everything and keeps it. -/
theorem visits_rationed_zero (p : Pass σ) (s : σ) (h : ∀ x ∈ ss, x.Takes x.node) :
    ∃ cs t, p.rationed.Visits (0, s) ss cs (ss.map Slot.node) (0, t) := by
  induction ss using Slot.induction generalizing s with
  | nil => exact ⟨[], s, .nil _⟩
  | cons x ss ih ihs =>
      obtain ⟨hx, hss⟩ := forall_mem_cons.mp h
      obtain ⟨cs, t, hbelow⟩ := ih (p.enter x.node s) fun _ => Node.takes_of_mem_slots
      obtain ⟨ds, u, hafter⟩ := ihs (p.leave x.node t) hss
      exact ⟨_, u, hbelow.keep x.node.rebuilt_self hx hafter⟩

/-- A visit that fails is cut short: with one answer less, the pass would go on to a complete
visit. -/
theorem Stops.rationed (h : p.Stops s ss cs e t) (hs : ∀ x ∈ ss, x.Takes x.node) :
    ∃ k rest ms u, cs.countP Visit.isSubstitute = k + 1 ∧
      p.rationed.Visits (k, s) ss (cs ++ rest) ms (0, u) ∧
      ((∀ x ∈ ss, x.kind? = none) → rest ≠ []) := by
  induction h with
  | @inside s t x ss cs e below ih =>
      obtain ⟨hx, hss⟩ := forall_mem_cons.mp hs
      obtain ⟨k, rest, ms, u, hk, hv, -⟩ := ih fun _ => Node.takes_of_mem_slots
      obtain ⟨ds, v, hafter⟩ := visits_rationed_zero p (p.leave x.node u) hss
      have hall := hv.keep (Node.rebuilt_fill hv.fits) hx hafter
      refine ⟨k, rest ++ [.substitute (x.node.fill ms), .leave x.node] ++ ds,
        x.node.fill ms :: ss.map Slot.node, v, ?_, ?_, ?_⟩
      · simpa [Visit.isSubstitute, countP_cons] using hk
      · simpa using hall
      · simp
  | @refused s t u x ss cs ms m e below rebuilt answer =>
      obtain ⟨hx, hss⟩ := forall_mem_cons.mp hs
      have hv := below.rationed 0
      rw [Nat.zero_add] at hv
      obtain ⟨ds, v, hafter⟩ := visits_rationed_zero p (p.leave x.node t) hss
      have hall := hv.keep rebuilt hx hafter
      refine ⟨cs.countP Visit.isSubstitute, .leave x.node :: ds, m :: ss.map Slot.node, v, ?_, ?_,
        ?_⟩
      · simp [Visit.isSubstitute, countP_cons]
      · simpa using hall
      · simp
  | @mismatch s t u x ss cs ms m a k below rebuilt answer expected found =>
      obtain ⟨hx, hss⟩ := forall_mem_cons.mp hs
      have hv := below.rationed 0
      rw [Nat.zero_add] at hv
      obtain ⟨ds, v, hafter⟩ := visits_rationed_zero p (p.leave x.node t) hss
      have hall := hv.keep rebuilt hx hafter
      refine ⟨cs.countP Visit.isSubstitute, ds, m :: ss.map Slot.node, v, ?_, ?_, ?_⟩
      · simp [Visit.isSubstitute, countP_cons]
      · simpa using hall
      · intro hany
        rw [hany x (.head _)] at expected
        cases expected
  | @later s t u v x ss cs ds ms m a e below rebuilt answer takes after ih =>
      obtain ⟨hx, hss⟩ := forall_mem_cons.mp hs
      obtain ⟨k, rest, ns, w, hk, hafter, hrest⟩ := ih hss
      have hv := below.rationed (k + 1)
      have hall := Visits.cons (s := (k + 1 + cs.countP Visit.isSubstitute, s)) hv rebuilt
        (rationed_answer answer k) takes hafter
      refine ⟨k + 1 + cs.countP Visit.isSubstitute, rest, a.getD m :: ns, w, ?_, ?_, ?_⟩
      · rw [Visit.countP_isSubstitute_node, hk]
        omega
      · simpa using hall
      · intro hany
        exact hrest fun y hy => hany y (.tail _ hy)

end Prefixes

end Pass

/-- A tree is visited as the only slot of a forest. -/
theorem Node.apply_eq_mapM {σ : Type} (p : Pass σ) (n : Node) :
    n.apply p = (fun ms : List Node => ms.headD n) <$> [⟨none, n⟩].mapM p.visitSlot := by
  have hroot : p.visitSlot ⟨none, n⟩ = n.apply p := Port.visit_any p n
  simp [hroot]

/-- What a run of a pass calls. If it succeeds, the calls are a complete visit: for each node once
its entering, the calls for its slots in order, the node rebuilt around what came of them, and its
leaving. If it fails, the calls stop with the failure: the pass that answers in the same way before
it, and keeps every node from there on, makes them and then others. -/
theorem Node.apply_calls {σ : Type} (p : Pass σ) (n : Node) (s : σ) : ∃ result calls t,
    (n.apply p.recorded).run ([], s) = (result, calls, t) ∧ (n.apply p).run s = (result, t) ∧
    match result with
    | .ok m =>
      p.Visits s [⟨none, n⟩] calls [m] t ∧
      calls.filterMap Visit.entered? ~ n.nodes ∧ calls.filterMap Visit.left? ~ n.nodes ∧
      calls.countP Visit.isSubstitute = n.nodes.length
    | .error e =>
      p.Stops s [⟨none, n⟩] calls e t ∧
      ∃ k rest m u, calls.countP Visit.isSubstitute = k + 1 ∧ rest ≠ [] ∧
        p.rationed.Visits (k, s) [⟨none, n⟩] (calls ++ rest) [m] (0, u) := by
  obtain ⟨calls, t, ⟨ms, hv, hr⟩ | ⟨e, hv, hr⟩⟩ := p.run_recorded [⟨none, n⟩] [] s
  · obtain ⟨m, rfl⟩ : ∃ m, ms = [m] := length_eq_one_iff.mp hv.fits.length_eq.symm
    refine ⟨.ok m, calls, t, ?_, ?_, hv, ?_, ?_, ?_⟩
    · rw [apply_eq_mapM]
      exact Run.map_ok hr
    · rw [apply_eq_mapM]
      exact Run.map_ok hv.run
    · simpa using hv.filterMap_perm Visit.entered? fun _ _ => rfl
    · simpa using hv.filterMap_perm Visit.left? fun _ _ => rfl
    · simpa using hv.countP_isSubstitute
  · have hany : ∀ x ∈ [(⟨none, n⟩ : Slot)], x.kind? = none := by simp
    obtain ⟨k, rest, ms, u, hk, hfull, hrest⟩ := hv.rationed (by simp [Slot.Takes])
    obtain ⟨m, rfl⟩ : ∃ m, ms = [m] := length_eq_one_iff.mp hfull.fits.length_eq.symm
    refine ⟨.error e, calls, t, ?_, ?_, hv, k, rest, m, u, hk, hrest hany, hfull⟩
    · rw [apply_eq_mapM]
      exact Run.map_error hr
    · rw [apply_eq_mapM]
      exact Run.map_error hv.run

/-- A pass that refuses everything does not get past the first leaf. -/
example :
    let refuseAll : Pass Unit := .ofRule fun n => .error (.invalid n.kind (.other "is closed"))
    ((Node.limit (.parens .selectAll)).apply refuseAll.recorded).run ([], ()) =
      (.error (.invalid .selectAll (.other "is closed")),
        [.enter (.limit (.parens .selectAll)), .enter (.parens .selectAll), .enter .selectAll,
          .substitute .selectAll], ()) := rfl

end SqlTree
