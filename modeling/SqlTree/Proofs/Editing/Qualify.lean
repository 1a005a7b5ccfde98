import SqlTree.Pass.Schema
import SqlTree.Proofs.Editing.Parts
import SqlTree.Proofs.Passes.Steps

/-! # Qualifying tables

The pass that qualifies tables pushes the names of a WITH clause on the way into a statement and
drops them on the way out, so over a whole tree it only reads the names it starts with. What it
makes of the tree is an edit of the tables alone. The other nodes are rebuilt around what it makes
of the nodes in their slots. -/

namespace SqlTree

/-- Sets the schema of a table that has none and whose name is not bound around it. -/
def Edit.qualifying (schema : Identifier) : Edit where
  table bound t := if t.schema = none ∧ t.name ∉ bound then t.withSchema schema else t

theorem Edit.table_qualifying (schema : Identifier) (bound : List String) (t : Table) :
    (qualifying schema).table bound t =
      if t.schema = none ∧ t.name ∉ bound then t.withSchema schema else t := rfl

theorem Edit.keepsNames_qualifying (schema : Identifier) : (qualifying schema).KeepsNames :=
  ⟨rfl, rfl, rfl⟩

/-! ## Steps that read the state -/

namespace Run

variable {σ α β : Type}

/-- A step that succeeds, reads the state and leaves it as it is. -/
def read (f : σ → α) : Run σ α := fun s => (.ok (f s), s)

theorem list_mapM {f : α → Run σ β} {g : α → σ → β} (h : ∀ a, f a = read (g a))
    (xs : List α) : xs.mapM f = read fun s => xs.map (g · s) := by
  induction xs with
  | nil => rfl
  | cons x xs ih => rw [List.mapM_cons, h, ih]; rfl

end Run

/-! ## Edits slot by slot -/

section Qualify

variable (schema : Identifier)

theorem Column.edit_qualifying (c : Column) : c.edit (.qualifying schema) = c := rfl

theorem CteName.edit_qualifying (n : CteName) : n.edit (.qualifying schema) = n := by
  have hc (cs : List Column) : cs.map (Column.edit (.qualifying schema)) = cs := by
    rw [funext (Column.edit_qualifying schema), List.map_id']
  rw [edit, funext hc, Option.map_id']
  rfl

theorem Node.rebuilt_qualifying {n : Node} (h : n.kind ≠ .table) (bound : List String) :
    n.Rebuilt (n.contents.map (edit (.qualifying schema) (n.bindings ++ bound)))
      (n.edit (.qualifying schema) bound) := by
  by_cases hv : n.kind = .value
  · cases n
    case value => exact rebuilt_self _
    all_goals cases hv
  · exact rebuilt_edit bound (Edit.keepsNames_qualifying schema) h hv

/-- The pass does to a node what it does to the nodes in its slots; only tables are its own
affair. -/
theorem Node.edit_eq_fill {n : Node} (h : n.kind ≠ .table) (bound : List String) :
    n.edit (.qualifying schema) bound =
      n.fill (n.contents.map (edit (.qualifying schema) (n.bindings ++ bound))) :=
  (rebuilt_qualifying schema h bound).eq_fill

theorem Table.fill_edit_qualifying (t : Table) (bound : List String) :
    (Node.table t).fill ((Node.table t).contents.map (Node.edit (.qualifying schema) bound)) =
      .table t := by
  obtain ⟨_ | s, i⟩ := t <;> rfl

/-! ## Visiting nodes -/

/-- The node that the pass puts in the place of another one. -/
def Node.qualified? (s : Scopes) : Node → Option Node
  | .table t => (t.qualify? schema s).map .table
  | _ => none

theorem Node.qualified?_eq_none {n : Node} (h : n.kind ≠ .table) (s : Scopes) :
    n.qualified? schema s = none := by
  cases n
  case table => exact absurd rfl h
  all_goals rfl

theorem Table.getD_qualify? (t : Table) (s : Scopes) :
    (t.qualify? schema s).getD t = (Edit.qualifying schema).table s.flatten t := by
  have hc : (t.schema.isNone && !s.binds t.name) = true ↔
      t.schema = none ∧ t.name ∉ s.flatten := by
    simp [Scopes.binds]
  simp only [qualify?, hc, Edit.qualifying]
  split <;> rfl

theorem Table.getD_qualified? (t : Table) (s : Scopes) :
    ((Node.table t).qualified? schema s).getD (.table t) =
      (Node.table t).edit (.qualifying schema) s.flatten := by
  rw [Node.edit, ← t.getD_qualify?, Node.qualified?]
  cases t.qualify? schema s <;> rfl

namespace Pass

theorem substitute_qualify (n : Node) :
    (qualify schema).substitute n = .read fun s => n.qualified? schema s := by
  cases n <;> rfl

theorem flatten_enter_qualify (n : Node) (s : Scopes) :
    ((qualify schema).enter n s).flatten = n.bindings ++ s.flatten := by
  cases n <;> rfl

theorem leave_enter_qualify (n : Node) (s : Scopes) :
    (qualify schema).leave n ((qualify schema).enter n s) = s := by
  cases h : n.scope? <;> simp [qualify, h]

theorem visit_qualify (n : Node) (f : Scopes → Node) :
    (qualify schema).visit n (.read f) = .read fun s =>
      ((f ((qualify schema).enter n s)).qualified? schema ((qualify schema).enter n s)).getD
        (f ((qualify schema).enter n s)) := by
  simp only [visit, substitute_qualify]
  funext s
  exact congrArg (Prod.mk _) (leave_enter_qualify schema n s)

/-- Around the results for the nodes in its slots, a visit makes of a node its edit. -/
theorem visit_fill_qualify (n : Node) :
    (qualify schema).visit n
        (.read fun s => n.fill (n.contents.map (Node.edit (.qualifying schema) s.flatten))) =
      .read fun s => n.edit (.qualifying schema) s.flatten := by
  rw [visit_qualify]
  congr 1
  funext s
  by_cases hk : n.kind = .table
  · cases n
    case table t =>
      rw [t.fill_edit_qualifying]
      exact t.getD_qualified? schema s
    all_goals cases hk
  · have hn (cs : List Node) : (n.fill cs).kind ≠ .table := by rwa [Node.fill, Node.kind_refill]
    rw [Node.qualified?_eq_none schema (hn _), Option.getD_none, flatten_enter_qualify,
      ← Node.edit_eq_fill schema hk]

theorem visitSlot_qualify {x : Slot} (hx : x.Takes x.node)
    (h : x.node.apply (qualify schema) =
      .read fun s => x.node.edit (.qualifying schema) s.flatten) :
    (qualify schema).visitSlot x =
      .read fun s => x.node.edit (.qualifying schema) s.flatten := by
  have hc (s : Scopes) : x.check (x.node.edit (.qualifying schema) s.flatten) =
      .ok (x.node.edit (.qualifying schema) s.flatten) :=
    Slot.check_eq_ok.mpr ⟨fun k hk => (x.node.kind_edit _ _).trans (hx k hk), rfl⟩
  rw [visitSlot, h]
  funext s
  change (liftM (x.check (x.node.edit (.qualifying schema) s.flatten)) : Run Scopes Node) s = _
  rw [hc]
  rfl

end Pass

/-! ## The pass over a tree -/

theorem Node.apply_qualify (n : Node) :
    n.apply (.qualify schema) = .read fun s => n.edit (.qualifying schema) s.flatten := by
  induction n using Node.induction_slots with
  | step n ih =>
      have hs : n.slots.mapM (Pass.qualify schema).visitSlot =
          .read fun s => n.contents.map (edit (.qualifying schema) s.flatten) := by
        rw [mapM_congr fun x hx => Pass.visitSlot_qualify schema (takes_of_mem_slots hx) (ih x hx),
          Run.list_mapM fun _ => rfl]
        simp [contents, Function.comp_def]
      have hf : n.fill <$> n.slots.mapM (Pass.qualify schema).visitSlot =
          .read fun s => n.fill (n.contents.map (edit (.qualifying schema) s.flatten)) := by
        rw [hs]
        rfl
      rw [apply_eq, hf, Pass.visit_fill_qualify]

theorem Node.qualify_eq (n : Node) :
    n.qualify schema = .ok (n.edit (.qualifying schema) []) := by
  rw [qualify, apply_qualify]
  rfl

/-- Over a tree, the pass puts the schema on the tables that have none and whose name no statement
around them binds, changes nothing else, does not fail and drops all names again. So one pass over
several trees does to each of them what a pass of its own does. -/
theorem Node.run_apply_qualify :
    (∀ n : Node, (n.apply (.qualify schema)).run [] =
      (.ok (n.edit (.qualifying schema) []), [])) ∧
    ∀ ns : List Node,
      (ns.mapM (Node.apply (.qualify schema))).run [] = (ns.mapM (Node.qualify schema), []) ∧
      ns.mapM (Node.qualify schema) = .ok (ns.map (Node.edit (.qualifying schema) [])) := by
  have hm (ns : List Node) : ns.mapM (Node.qualify schema) =
      .ok (ns.map (Node.edit (.qualifying schema) [])) := by
    rw [funext (qualify_eq schema)]
    exact List.mapM_pure
  refine ⟨fun n => ?_, fun ns => ⟨?_, hm ns⟩⟩
  · rw [apply_qualify]
    rfl
  · rw [Run.list_mapM (apply_qualify schema), hm]
    rfl

end Qualify

/-- The names of a WITH clause are bound in its statement, also in its own expressions, but not
beside it. -/
example :
    let users : Node := .table ⟨none, ⟨"users"⟩⟩
    let w : With Node := ⟨false, [⟨⟨⟨"users"⟩, none⟩, none, .select { fromItems := some [users] }⟩]⟩
    let query : Node := .select { withClause := some w, fromItems := some [users] }
    Node.qualify ⟨"app"⟩ (.valueList [query, users]) =
      .ok (.valueList [query, .table ⟨some ⟨"app"⟩, ⟨"users"⟩⟩]) := rfl

end SqlTree
