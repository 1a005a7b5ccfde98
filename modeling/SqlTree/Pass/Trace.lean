import SqlTree.Pass.Basic

/-! Watching a pass: the calls it receives, in their order. -/

namespace SqlTree

/-- A call to a pass, with the kind of the node it is given. -/
inductive Call where
  | enter (k : Kind)
  | substitute (k : Kind) (replaced : Bool)
  | leave (k : Kind)
deriving DecidableEq, Repr

namespace Call

/-- Whether the call put another node in the place of the one it was given. -/
def replaces : Call → Bool
  | .substitute _ replaced => replaced
  | _ => false

/-- A call in words. -/
def text : Call → String
  | .enter k => "enter " ++ k.name
  | .substitute k _ => "node " ++ k.name
  | .leave k => "exit " ++ k.name

end Call

/-- A pass that records its calls, the last one first, before its own state changes. A failing
call is the last one recorded. -/
def Pass.traced {σ : Type} (p : Pass σ) : Pass (List Call × σ) where
  enter n s := (.enter n.kind :: s.1, p.enter n s.2)
  substitute n s :=
    match (p.substitute n).run s.2 with
    | (.ok m, t) => (.ok m, (.substitute n.kind m.isSome :: s.1, t))
    | (.error e, t) => (.error e, (.substitute n.kind false :: s.1, t))
  leave n s := (.leave n.kind :: s.1, p.leave n s.2)

/-- A pass with the calls it made, the first one first. -/
def Node.applyTraced {σ : Type} (p : Pass σ) (start : σ) (n : Node) :
    Except Error Node × List Call :=
  let (result, calls, _) := (n.apply p.traced).run ([], start)
  (result, calls.reverse)

end SqlTree
