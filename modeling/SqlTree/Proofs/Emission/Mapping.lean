import SqlTree.Proofs.Emission.Rendering

/-! # Changing the items of a layout

A change of trees that leaves alone what the rules write changes the items of a layout one by one:
the parts are changed, the fixed texts and the refusals stay. The rows of the table of layouts are
then the same rows over the changed parts. -/

namespace SqlTree

/-- A layout with its items changed. -/
def Layout.map (f : Item → Item) : Layout → Layout
  | .items is => .items (is.map f)
  | .clauses cs => .clauses (cs.map fun c => (c.1, c.2.map f))

/-- A change of items that changes parts by a function and keeps fixed texts and refusals. -/
structure Item.Follows (f : Item → Item) (g : Node → Node) : Prop where
  text (s : String) : f (Item.text s) = Item.text s := by intros; rfl
  part (n : Node) : f (Item.part n) = Item.part (g n) := by intros; rfl
  refuse (e : Error) : f (Item.refuse e) = Item.refuse e := by intros; rfl

namespace Item.Follows

variable {f : Item → Item} {g : Node → Node} (h : Item.Follows f g)
include h

theorem separated (s : String) (ns : List Node) :
    (Item.separated s ns).map f = Item.separated s (ns.map g) := by
  rw [Item.separated, map_intersperse, h.text, Item.separated, List.map_map, List.map_map]
  congr 1
  exact List.map_congr_left fun n _ => h.part n

theorem listed (k : String) (ns : List Node) :
    (Item.listed k ns).map f = Item.listed k (ns.map g) := by
  rw [Item.listed, List.map_cons, h.text, h.separated, Item.listed]

theorem tuple (ns : List Node) : (Item.tuple ns).map f = Item.tuple (ns.map g) := by
  rw [Item.tuple, List.map_append, List.map_cons, h.text, h.separated, List.map_singleton, h.text,
    Item.tuple]

theorem grouped (w : Bool) (n : Node) : (Item.grouped w n).map f = Item.grouped w (g n) := by
  cases w <;> simp [Item.grouped, h.text, h.part]

theorem interleaved (fs : List String) (ns : List Node) :
    (Item.interleaved fs ns).map f = Item.interleaved fs (ns.map g) := by
  fun_induction Item.interleaved with
  | case1 => rfl
  | case2 s fs ih => simp [ih, Item.interleaved, h.text]
  | case3 s fs n ns ih => simp [ih, Item.interleaved, h.text, h.part]

theorem single (c : Clause) (n : Option Node) :
    (Layout.single c n).map (fun c => (c.1, c.2.map f)) = Layout.single c (n.map g) := by
  cases n with
  | none => rfl
  | some n => simp [Layout.single, Layout.clause, h.part]

theorem statement (d : Dialect) (k : StatementKind) (cs : List (Clause × List Item)) :
    (Layout.statement d k cs).map f =
      Layout.statement d k (cs.map fun c => (c.1, c.2.map f)) := by
  have hp : ((fun c : Clause × List Item => !(d.clauseOrder k).contains c.1) ∘
      fun c : Clause × List Item => (c.1, c.2.map f)) =
        fun c => !(d.clauseOrder k).contains c.1 := rfl
  rw [Layout.statement, Layout.statement, List.find?_map, hp]
  cases cs.find? fun c => !(d.clauseOrder k).contains c.1 with
  | some c => simp [Layout.map, h.refuse]
  | none =>
      simp only [Layout.map, Option.map_none, List.map_map, Layout.clauses.injEq]
      apply List.map_congr_left
      intro c _
      simp only [Function.comp_apply, lookup_map]
      cases cs.lookup c <;> rfl

end Item.Follows

/-- An item with its part changed. -/
def Item.mapParts (g : Node → Node) : Item → Item
  | .piece p => .piece p
  | .part n => .part (g n)
  | .refuse e => .refuse e

theorem Item.follows_mapParts (g : Node → Node) : Follows (mapParts g) g where

theorem Layout.clause_map (f : Item → Item) (c : Clause) (is : Option (List Item)) :
    (clause c is).map (fun c => (c.1, c.2.map f)) = clause c (is.map (·.map f)) := by
  cases is <;> rfl

end SqlTree
