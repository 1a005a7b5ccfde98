import SqlTree.Clause
import SqlTree.Node.Build

/-! Changing a statement clause by clause. A slot is the place of a statement for one optional
clause; each change reads one slot and writes it back, whatever the statement. -/

namespace SqlTree

/-- A statement `σ` with a slot for the clause `c`, which holds an `α` if the clause is there. -/
class HasSlot (c : Clause) (σ : Type) (α : outParam Type) where
  get : σ → Option α
  set : Option α → σ → σ

section Instances

variable {α : Type}

instance : HasSlot .with (Select α) (With α) :=
  ⟨(·.withClause), fun a q => { q with withClause := a }⟩
instance : HasSlot .top (Select α) Top :=
  ⟨(·.top), fun a q => { q with top := a }⟩
instance : HasSlot .explain (Select α) (Explain α) :=
  ⟨(·.explain), fun a q => { q with explain := a }⟩
instance : HasSlot .endModifiers (Select α) (List α) :=
  ⟨(·.endModifiers), fun a q => { q with endModifiers := a }⟩
instance : HasSlot .where (Select α) α :=
  ⟨(·.whereClause), fun a q => { q with whereClause := a }⟩
instance : HasSlot .joins (Select α) (List (Join α)) :=
  ⟨(·.joins), fun a q => { q with joins := a }⟩
instance : HasSlot .orderBy (Select α) (List (SortItem α)) :=
  ⟨(·.orderBy), fun a q => { q with orderBy := a }⟩
instance : HasSlot .limit (Select α) α :=
  ⟨(·.limit), fun a q => { q with limit := a }⟩
instance : HasSlot .from (Select α) (List α) :=
  ⟨(·.fromItems), fun a q => { q with fromItems := a }⟩
instance : HasSlot .selections (Select α) (List α) :=
  ⟨(·.selections), fun a q => { q with selections := a }⟩
instance : HasSlot .groupBy (Select α) (List α) :=
  ⟨(·.groupBy), fun a q => { q with groupBy := a }⟩
instance : HasSlot .having (Select α) α :=
  ⟨(·.having), fun a q => { q with having := a }⟩
instance : HasSlot .offset (Select α) α :=
  ⟨(·.offset), fun a q => { q with offset := a }⟩

instance : HasSlot .with (Insert α) (With α) :=
  ⟨(·.withClause), fun a q => { q with withClause := a }⟩
instance : HasSlot .top (Insert α) Top :=
  ⟨(·.top), fun a q => { q with top := a }⟩
instance : HasSlot .explain (Insert α) (Explain α) :=
  ⟨(·.explain), fun a q => { q with explain := a }⟩
instance : HasSlot .endModifiers (Insert α) (List α) :=
  ⟨(·.endModifiers), fun a q => { q with endModifiers := a }⟩
instance : HasSlot .returning (Insert α) (List α) :=
  ⟨(·.returning), fun a q => { q with returning := a }⟩
instance : HasSlot .output (Insert α) (List α) :=
  ⟨(·.output), fun a q => { q with output := a }⟩
instance : HasSlot .columns (Insert α) (List Column) :=
  ⟨(·.columns), fun a q => { q with columns := a }⟩
instance : HasSlot .onConflict (Insert α) (OnConflict α) :=
  ⟨(·.onConflict), fun a q => { q with onConflict := a }⟩

instance : HasSlot .with (Update α) (With α) :=
  ⟨(·.withClause), fun a q => { q with withClause := a }⟩
instance : HasSlot .top (Update α) Top :=
  ⟨(·.top), fun a q => { q with top := a }⟩
instance : HasSlot .explain (Update α) (Explain α) :=
  ⟨(·.explain), fun a q => { q with explain := a }⟩
instance : HasSlot .endModifiers (Update α) (List α) :=
  ⟨(·.endModifiers), fun a q => { q with endModifiers := a }⟩
instance : HasSlot .where (Update α) α :=
  ⟨(·.whereClause), fun a q => { q with whereClause := a }⟩
instance : HasSlot .joins (Update α) (List (Join α)) :=
  ⟨(·.joins), fun a q => { q with joins := a }⟩
instance : HasSlot .orderBy (Update α) (List (SortItem α)) :=
  ⟨(·.orderBy), fun a q => { q with orderBy := a }⟩
instance : HasSlot .limit (Update α) α :=
  ⟨(·.limit), fun a q => { q with limit := a }⟩
instance : HasSlot .returning (Update α) (List α) :=
  ⟨(·.returning), fun a q => { q with returning := a }⟩
instance : HasSlot .output (Update α) (List α) :=
  ⟨(·.output), fun a q => { q with output := a }⟩
instance : HasSlot .from (Update α) (List α) :=
  ⟨(·.fromItems), fun a q => { q with fromItems := a }⟩
instance : HasSlot .set (Update α) (List (Assignment α)) :=
  ⟨(·.assignments), fun a q => { q with assignments := a }⟩

instance : HasSlot .with (Delete α) (With α) :=
  ⟨(·.withClause), fun a q => { q with withClause := a }⟩
instance : HasSlot .top (Delete α) Top :=
  ⟨(·.top), fun a q => { q with top := a }⟩
instance : HasSlot .explain (Delete α) (Explain α) :=
  ⟨(·.explain), fun a q => { q with explain := a }⟩
instance : HasSlot .endModifiers (Delete α) (List α) :=
  ⟨(·.endModifiers), fun a q => { q with endModifiers := a }⟩
instance : HasSlot .where (Delete α) α :=
  ⟨(·.whereClause), fun a q => { q with whereClause := a }⟩
instance : HasSlot .joins (Delete α) (List (Join α)) :=
  ⟨(·.joins), fun a q => { q with joins := a }⟩
instance : HasSlot .orderBy (Delete α) (List (SortItem α)) :=
  ⟨(·.orderBy), fun a q => { q with orderBy := a }⟩
instance : HasSlot .limit (Delete α) α :=
  ⟨(·.limit), fun a q => { q with limit := a }⟩
instance : HasSlot .returning (Delete α) (List α) :=
  ⟨(·.returning), fun a q => { q with returning := a }⟩
instance : HasSlot .output (Delete α) (List α) :=
  ⟨(·.output), fun a q => { q with output := a }⟩
instance : HasSlot .using (Delete α) (List α) :=
  ⟨(·.usingItems), fun a q => { q with usingItems := a }⟩

end Instances

namespace Statement

variable {σ : Type}

/-- Removes a clause. -/
def clear {α : Type} (c : Clause) [HasSlot c σ α] (q : σ) : σ :=
  HasSlot.set c none q

/-- Puts a clause in the place of the one that is there. -/
def put {α : Type} (c : Clause) [HasSlot c σ α] (a : α) (q : σ) : σ :=
  HasSlot.set c (some a) q

/-- Adds items at the end of a clause, which may stay empty. -/
def append {α : Type} (c : Clause) [HasSlot c σ (List α)] (xs : List α) (q : σ) : σ :=
  HasSlot.set c (some ((HasSlot.get c q).getD [] ++ xs)) q

/-- Adds items at the end of a clause that is never empty: without the clause there must be
some. -/
def extend {α : Type} (c : Clause) (items : ItemClause) [HasSlot c σ (List α)] (xs : List α)
    (q : σ) : Except Error σ :=
  match HasSlot.get c q with
  | some ys => .ok (HasSlot.set c (some (ys ++ xs)) q)
  | none => do return HasSlot.set c (some (← items.items xs)) q

/-- Merges a predicate into that of a clause. -/
def merge (c : Clause) [HasSlot c σ Node] (op : Connective) (p : Node) (q : σ) : σ :=
  HasSlot.set c (some (op.mergeOpt (HasSlot.get c q) p)) q

/-- Adds common table expressions after those that are there. -/
def addWith [HasSlot .with σ (With Node)] (w : With Node) (q : σ) : σ :=
  let merged := match HasSlot.get Clause.with q with
    | some v => With.merge v w
    | none => w
  HasSlot.set .with (some merged) q

/-- Adds a predicate that must hold with those that are there. -/
def addWhere [HasSlot .where σ Node] (p : Node) (q : σ) : σ := merge .where .and p q

/-- Adds a predicate that may hold in place of those that are there. -/
def orWhere [HasSlot .where σ Node] (p : Node) (q : σ) : σ := merge .where .or p q

def addFrom [HasSlot .from σ (List Node)] (xs : List Node) (q : σ) : Except Error σ :=
  extend .from .from xs q

def addUsing [HasSlot .using σ (List Node)] (xs : List Node) (q : σ) : Except Error σ :=
  extend .using .using xs q

def addReturning [HasSlot .returning σ (List Node)] (xs : List Node) (q : σ) : Except Error σ :=
  extend .returning .returning xs q

def addOutput [HasSlot .output σ (List Node)] (xs : List Node) (q : σ) : Except Error σ :=
  extend .output .output xs q

def addOrderBy [HasSlot .orderBy σ (List (SortItem Node))] (xs : List (SortItem Node)) (q : σ) :
    Except Error σ :=
  extend .orderBy .orderBy xs q

def addGroupBy [HasSlot .groupBy σ (List Node)] (xs : List Node) (q : σ) : Except Error σ :=
  extend .groupBy .groupBy xs q

def addJoin [HasSlot .joins σ (List (Join Node))] (j : Join Node) (q : σ) : σ :=
  append .joins [j] q

def addEndModifier [HasSlot .endModifiers σ (List Node)] (n : Node) (q : σ) : σ :=
  append .endModifiers [n] q

end Statement

namespace Insert

/-- Takes the rows from a VALUES clause or a query, no longer the defaults. -/
def withSource (q : Insert Node) (source : Node) : Insert Node :=
  { q with source := some source, defaultValues := false }

/-- Inserts one row of defaults, no longer the rows of a source. -/
def withDefaults (q : Insert Node) : Insert Node :=
  { q with source := none, defaultValues := true }

end Insert

end SqlTree
