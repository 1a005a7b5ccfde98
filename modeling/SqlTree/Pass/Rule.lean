import SqlTree.Pass.Basic

/-! Rewriting by a rule: passes without a state. A rule says of each node, once it is rebuilt around
its children, what is to stand in its place. -/

namespace SqlTree

/-- A node to put in the place of another one, or none to keep it, or a refusal. -/
abbrev Rule := Node → Except Error (Option Node)

/-- What a rule makes of a node. -/
def Rule.result (f : Rule) (n : Node) : Except Error Node := (f n).map (·.getD n)

theorem Rule.result_eq_error {f : Rule} {n : Node} {e : Error} :
    f.result n = .error e ↔ f n = .error e := by
  rw [result]
  cases f n <;> simp [Except.map]

namespace Pass

/-- Applies a rule to each node, from the leaves up. -/
def ofRule (f : Rule) : Pass Unit where
  substitute n := fun s => (f n, s)

/-- Keeps every node. -/
def identity : Pass Unit := {}

/-- Puts one node in the place of every node of a kind. -/
def replace (k : Kind) (other : Node) : Pass Unit :=
  ofRule fun n => .ok (if n.kind = k then some other else none)

/-- Renames identifiers. -/
def rename (old new : String) : Pass Unit :=
  ofRule fun
    | .identifier i => .ok (if i.name = old then some (.identifier ⟨new⟩) else none)
    | _ => .ok none

/-- Refuses every node of a kind, and says why. -/
def refuse (k : Kind) (reason : String := "was refused") : Pass Unit :=
  ofRule fun n => if n.kind = k then .error (.invalid k (.other reason)) else .ok none

end Pass

/-- The tree after a rule has been applied to every node, from the leaves up. -/
def Node.rewrite (f : Rule) (n : Node) : Except Error Node := ((n.apply (.ofRule f)).run ()).1

end SqlTree
