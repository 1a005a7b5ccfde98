import SqlTree.Proofs.Passes.Rebuilt
import SqlTree.Proofs.Passes.Runs

/-! # What a pass does at a node

At every node a pass goes over the slots in order, rebuilds the node around the results and offers
it for substitution. The functions for the parts of statements come to the same. -/

namespace SqlTree

variable {σ α : Type}

/-- A pass over the node in a slot. The result must be one that the slot takes. -/
def Pass.visitSlot (p : Pass σ) (s : Slot) : Run σ Node := do s.check (← s.node.apply p)

namespace Port

/-- A pass over a value in a slot. -/
def visit (q : Port α) (p : Pass σ) (a : α) : Run σ α := do q.take (← (q.make a).apply p)

theorem visit_any (p : Pass σ) (n : Node) : any.visit p n = n.apply p := by
  change (n.apply p >>= fun m => liftM (Except.ok m : Except Error Node)) = n.apply p
  exact bind_pure _

variable (p : Pass σ)

theorem visitAs_eq {k : KindOf α} {a : α} {rebuilt : Run σ α}
    (h : (k.make a).apply p = p.visit (k.make a) (return k.make (← rebuilt))) :
    p.visitAs k a rebuilt = (only k).visit p a := by
  rw [Pass.visitAs, ← h]
  rfl

variable (q : Port α) [hq : q.Lawful]

theorem check_eq (a : α) (n : Node) :
    Slot.check ⟨q.kind?, q.make a⟩ n = q.make <$> q.take n := by
  obtain ⟨b, rfl⟩ | ⟨k, hk, hn, ht⟩ := hq.cases n
  · rw [hq.take_make]
    exact Slot.check_eq_ok.mpr ⟨hq.kind_make b, rfl⟩
  · rw [ht]
    exact Slot.check_eq_error.mpr ⟨k, hk, hn, rfl⟩

theorem visitSlot_eq (a : α) : p.visitSlot ⟨q.kind?, q.make a⟩ = q.make <$> q.visit p a := by
  rw [Pass.visitSlot, visit, map_bind]
  refine bind_congr fun n => ?_
  rw [check_eq]
  cases q.take n <;> rfl

theorem mapM_visitSlot (as : List α) :
    (q.slots as).mapM p.visitSlot = List.map q.make <$> as.mapM (q.visit p) := by
  induction as with
  | nil => simp [slots]
  | cons a as ih =>
      have hs : q.slots (a :: as) = ⟨q.kind?, q.make a⟩ :: q.slots as := rfl
      rw [hs, List.mapM_cons, ih, visitSlot_eq, List.mapM_cons]
      simp

theorem mapM_visit (as : List α) :
    as.mapM (q.visit p) = q.read <$> (q.slots as).mapM p.visitSlot := by
  have hr : q.read ∘ List.map q.make = id := funext q.read_map_make
  rw [mapM_visitSlot, ← comp_map, hr, id_map]

theorem visit_eq (a : α) :
    q.visit p a = (fun ns => (q.read ns).headD a) <$> (q.slots [a]).mapM p.visitSlot := by
  rw [mapM_visitSlot]
  simp

theorem mapM_opt_visit (x : Option α) :
    x.mapM (q.visit p) = (fun ns => (q.read ns).head?) <$> (q.slots x.toList).mapM p.visitSlot := by
  rw [mapM_visitSlot]
  cases x with
  | none => simp [read]
  | some a => simp

theorem mapM_optAll_visit (x : Option (List α)) :
    x.mapM (·.mapM (q.visit p)) =
      (fun ns => x.map fun _ => q.read ns) <$> (q.slots (x.getD [])).mapM p.visitSlot := by
  cases x with
  | none => simp [slots]
  | some as =>
      rw [Option.mapM_some, mapM_visit, Option.getD_some]
      simp

end Port

/-! ## The parts of statements -/

open Port

variable (p : Pass σ)

theorem Pass.visitIdentifier_eq : p.visitIdentifier = (only .identifier).visit p :=
  funext fun _ => visitAs_eq p rfl

theorem Pass.visitTable_eq : p.visitTable = (only .table).visit p :=
  funext fun _ => visitAs_eq p rfl

theorem Pass.visitColumn_eq : p.visitColumn = (only .column).visit p :=
  funext fun _ => visitAs_eq p rfl

theorem Pass.mapM_visitColumn (x : Option (List Column)) :
    x.mapM (·.mapM p.visitColumn) = (fun ns => x.map fun _ => (only .column).read ns) <$>
      ((only .column).slots (x.getD [])).mapM p.visitSlot := by
  rw [Pass.visitColumn_eq, mapM_optAll_visit]

theorem Pass.visitOperator_eq : p.visitOperator = (only .operator).visit p :=
  funext fun _ => visitAs_eq p rfl

theorem Pass.visitTop_eq : p.visitTop = (only .top).visit p :=
  funext fun _ => visitAs_eq p rfl

theorem Pass.visitCteName_eq : p.visitCteName = (only .cteName).visit p :=
  funext fun _ => visitAs_eq p rfl

theorem Node.applyAll_eq (ns : List Node) : Node.applyAll p ns = ns.mapM (any.visit p) := by
  induction ns with
  | nil => rfl
  | cons n ns ih => rw [Node.applyAll, List.mapM_cons, ih, visit_any]

theorem Node.applyEach_eq {k : KindOf Node}
    (h : ∀ n, (k.make n).apply p = p.visit (k.make n) (return k.make (← n.apply p)))
    (ns : List Node) : Node.applyEach p k ns = ns.mapM ((only k).visit p) := by
  induction ns with
  | nil => rfl
  | cons n ns ih => rw [Node.applyEach, List.mapM_cons, ih, visitAs_eq p (h n)]

theorem Node.applyFrom_eq (ns : List Node) :
    p.visitAs .from ns (Node.applyAll p ns) = (only .from).visit p ns :=
  visitAs_eq p rfl

theorem Node.applyRows_eq (rows : List (List Node)) :
    Node.applyRows p rows = rows.mapM ((only .valueList).visit p) := by
  induction rows with
  | nil => rfl
  | cons row rows ih => rw [Node.applyRows, List.mapM_cons, ih, visitAs_eq p rfl]

theorem Node.applyOpt_eq (n : Option Node) : Node.applyOpt p n = n.mapM (any.visit p) := by
  cases n with
  | none => rfl
  | some n => rw [Node.applyOpt, Option.mapM_some, visit_any]; rfl

theorem Node.applySlot_eq {k : KindOf Node}
    (h : ∀ n, (k.make n).apply p = p.visit (k.make n) (return k.make (← n.apply p)))
    (n : Option Node) : Node.applySlot p k n = n.mapM ((only k).visit p) := by
  cases n with
  | none => rfl
  | some n => rw [Node.applySlot, Option.mapM_some, visitAs_eq p (h n)]; rfl

theorem Node.applyOptAll_eq (ns : Option (List Node)) :
    Node.applyOptAll p ns = ns.mapM (·.mapM (any.visit p)) := by
  cases ns with
  | none => rfl
  | some ns => rw [Node.applyOptAll, Option.mapM_some, Node.applyAll_eq]; rfl

theorem Node.applyOptEach_eq {k : KindOf Node}
    (h : ∀ n, (k.make n).apply p = p.visit (k.make n) (return k.make (← n.apply p)))
    (ns : Option (List Node)) :
    Node.applyOptEach p k ns = ns.mapM (·.mapM ((only k).visit p)) := by
  cases ns with
  | none => rfl
  | some ns => rw [Node.applyOptEach, Option.mapM_some, Node.applyEach_eq p h]; rfl

theorem Node.applyItems_eq {k : KindOf (List Node)}
    (h : ∀ ns, (k.make ns).apply p = p.visit (k.make ns) (return k.make (← Node.applyAll p ns)))
    (ns : Option (List Node)) : Node.applyItems p k ns = ns.mapM ((only k).visit p) := by
  cases ns with
  | none => rfl
  | some ns => rw [Node.applyItems, Option.mapM_some, visitAs_eq p (h ns)]; rfl

theorem Node.applyReturning_eq (ns : Option (List Node)) :
    Node.applyReturning p ns = ns.mapM ((only .returning).visit p) := by
  cases ns with
  | none => rfl
  | some ns => rw [Node.applyReturning, Option.mapM_some, visitAs_eq p rfl]; rfl

theorem SortItem.applyEach_eq (is : List (SortItem Node)) :
    SortItem.applyEach p is = is.mapM ((only .orderByItem).visit p) := by
  induction is with
  | nil => rfl
  | cons i is ih => rw [SortItem.applyEach, List.mapM_cons, ih, visitAs_eq p rfl]

theorem SortItem.applySlot_eq (is : Option (List (SortItem Node))) :
    SortItem.applySlot p is = is.mapM ((only .orderBy).visit p) := by
  cases is with
  | none => rfl
  | some is => rw [SortItem.applySlot, Option.mapM_some, visitAs_eq p rfl]; rfl

theorem Join.applyEach_eq (js : List (Join Node)) :
    Join.applyEach p js = js.mapM ((only .join).visit p) := by
  induction js with
  | nil => rfl
  | cons j js ih => rw [Join.applyEach, List.mapM_cons, ih, visitAs_eq p rfl]

theorem Join.applyOptEach_eq (js : Option (List (Join Node))) :
    Join.applyOptEach p js = js.mapM (·.mapM ((only .join).visit p)) := by
  cases js with
  | none => rfl
  | some js => rw [Join.applyOptEach, Option.mapM_some, Join.applyEach_eq]; rfl

theorem Explain.applySlot_eq (x : Option (Explain Node)) :
    Explain.applySlot p x = x.mapM ((only .explain).visit p) := by
  cases x with
  | none => rfl
  | some x => rw [Explain.applySlot, Option.mapM_some, visitAs_eq p rfl]; rfl

theorem Cte.applyEach_eq (cs : List (Cte Node)) :
    Cte.applyEach p cs = cs.mapM ((only .cte).visit p) := by
  induction cs with
  | nil => rfl
  | cons c cs ih => rw [Cte.applyEach, List.mapM_cons, ih, visitAs_eq p rfl]

theorem With.applySlot_eq (w : Option (With Node)) :
    With.applySlot p w = w.mapM ((only .with).visit p) := by
  cases w with
  | none => rfl
  | some w => rw [With.applySlot, Option.mapM_some, visitAs_eq p rfl]; rfl

theorem Assignment.applyEach_eq (as : List (Assignment Node)) :
    Assignment.applyEach p as = as.mapM ((only .assignment).visit p) := by
  induction as with
  | nil => rfl
  | cons a as ih => rw [Assignment.applyEach, List.mapM_cons, ih, visitAs_eq p rfl]

theorem Assignment.applyOptEach_eq (as : Option (List (Assignment Node))) :
    Assignment.applyOptEach p as = as.mapM (·.mapM ((only .assignment).visit p)) := by
  cases as with
  | none => rfl
  | some as => rw [Assignment.applyOptEach, Option.mapM_some, Assignment.applyEach_eq]; rfl

theorem OnConflict.applySlot_eq (c : Option (OnConflict Node)) :
    OnConflict.applySlot p c = c.mapM ((only .onConflict).visit p) := by
  cases c with
  | none => rfl
  | some c => rw [OnConflict.applySlot, Option.mapM_some, visitAs_eq p rfl]; rfl

/-! ## The step -/

theorem Node.apply_eq_refill (n : Node) :
    n.apply p = p.visit n (n.refill <$> n.fields.mapM (·.mapM p.visitSlot)) := by
  cases n
  case' join x | orderByItem x | explain x | «with» x | cte x | assignment x | onConflict x |
      select x | insert x | update x | delete x => cases x
  -- Both sides go over the same slots, and then the fields are read in the same way.
  case select | insert | update | delete =>
    simp only [Node.apply, Select.apply, Insert.apply, Update.apply, Delete.apply]
    simp only [↓Node.applyFrom_eq, ← visit_any p, Pass.visitTable_eq, Pass.visitTop_eq,
      Node.applyOpt_eq, Node.applySlot_eq p (k := .where) fun _ => rfl,
      Node.applySlot_eq p (k := .having) fun _ => rfl,
      Node.applySlot_eq p (k := .limit) fun _ => rfl,
      Node.applySlot_eq p (k := .offset) fun _ => rfl, Node.applyOptAll_eq,
      Node.applyOptEach_eq p (k := .selection) fun _ => rfl,
      Node.applyItems_eq p (k := .from) fun _ => rfl,
      Node.applyItems_eq p (k := .using) fun _ => rfl,
      Node.applyItems_eq p (k := .groupBy) fun _ => rfl,
      Node.applyItems_eq p (k := .output) fun _ => rfl, Node.applyReturning_eq,
      SortItem.applySlot_eq, Join.applyOptEach_eq, Explain.applySlot_eq, With.applySlot_eq,
      Assignment.applyOptEach_eq, OnConflict.applySlot_eq, ↓Pass.mapM_visitColumn,
      ↓mapM_optAll_visit, visit_eq, mapM_opt_visit]
    simp only [Node.fields, Node.refill, one, opt, optAll, List.mapM_cons, List.mapM_nil,
      List.getD_cons_zero, List.getD_cons_succ, map_eq_pure_bind, bind_assoc, pure_bind]
  all_goals
    simp only [Node.apply, Pass.rebuildTable, Pass.rebuildColumn, Pass.rebuildCteName, Join.apply,
      SortItem.apply, Explain.apply, With.apply, Cte.apply, Assignment.apply, OnConflict.apply]
    simp only [← visit_any p, Pass.visitIdentifier_eq, Pass.visitTable_eq,
      ↓Pass.mapM_visitColumn, Pass.visitColumn_eq, Pass.visitOperator_eq, Pass.visitCteName_eq,
      Node.applyAll_eq, Node.applyEach_eq p (k := .selection) fun _ => rfl, Node.applyRows_eq,
      Node.applyOpt_eq, Node.applySlot_eq p (k := .on) fun _ => rfl,
      Node.applySlot_eq p (k := .where) fun _ => rfl, SortItem.applyEach_eq, Cte.applyEach_eq,
      Assignment.applyOptEach_eq, ↓mapM_optAll_visit, mapM_visit, visit_eq, mapM_opt_visit,
      Node.fields, Node.refill, one, opt, all, optAll, List.mapM_cons, List.mapM_nil,
      List.getD_cons_zero, List.getD_cons_succ, map_eq_pure_bind, bind_assoc, pure_bind]

/-- A pass goes over the slots of a node and then visits the node rebuilt around the results. -/
theorem Node.apply_eq (n : Node) :
    n.apply p = p.visit n (n.fill <$> n.slots.mapM p.visitSlot) := by
  rw [apply_eq_refill, mapM_mapM, ← comp_map]
  rfl

end SqlTree
