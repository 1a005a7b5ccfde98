import Mathlib.Logic.Function.Basic
import SqlTree.Clause
import SqlTree.Node

/-! # What a statement holds for a clause

A statement read as a family over the clauses: the optional slots, the flag of the keyword, the
source of the rows of an INSERT together with the flag for its defaults, and the mandatory parts. A
statement is no more than that, so two statements that hold the same for every clause are equal. -/

namespace SqlTree

/-- What there can be for a clause. -/
def Clause.Held : Clause → Type
  | .explain => Option (Explain Node)
  | .with => Option (With Node)
  | .keyword => Bool
  | .top => Option Top
  | .into => Option Table
  | .columns => Option (List Column)
  | .set => Option (List (Assignment Node))
  | .joins => Option (List (Join Node))
  | .values => Option Node × Bool
  | .onConflict => Option (OnConflict Node)
  | .orderBy => Option (List (SortItem Node))
  | .table | .where | .having | .limit | .offset => Option Node
  | .selections | .from | .using | .groupBy | .returning | .output | .endModifiers =>
    Option (List Node)

namespace Select

/-- What a SELECT holds for a clause. -/
def held (q : Select Node) : (c : Clause) → c.Held
  | .explain => q.explain
  | .with => q.withClause
  | .keyword => q.distinct
  | .top => q.top
  | .selections => q.selections
  | .from => q.fromItems
  | .joins => q.joins
  | .where => q.whereClause
  | .groupBy => q.groupBy
  | .having => q.having
  | .orderBy => q.orderBy
  | .limit => q.limit
  | .offset => q.offset
  | .endModifiers => q.endModifiers
  | .values => (none, false)
  | .into | .columns | .table | .set | .using | .onConflict | .returning | .output => none

theorem held_injective : Function.Injective held := by
  intro q r h
  cases q
  cases r
  have hc (c : Clause) := congrFun h c
  rw [mk.injEq]
  exact ⟨hc .from, hc .selections, hc .keyword, hc .joins, hc .where, hc .groupBy, hc .having,
    hc .orderBy, hc .limit, hc .offset, hc .with, hc .explain, hc .top, hc .endModifiers⟩

end Select

namespace Insert

/-- What an INSERT holds for a clause. -/
def held (q : Insert Node) : (c : Clause) → c.Held
  | .explain => q.explain
  | .with => q.withClause
  | .keyword => q.ignore
  | .top => q.top
  | .into => some q.into
  | .columns => q.columns
  | .values => (q.source, q.defaultValues)
  | .onConflict => q.onConflict
  | .returning => q.returning
  | .output => q.output
  | .endModifiers => q.endModifiers
  | .selections | .table | .set | .from | .using | .joins | .where | .groupBy | .having | .orderBy
  | .limit | .offset => none

theorem held_injective : Function.Injective held := by
  intro q r h
  cases q
  cases r
  have hc (c : Clause) := congrFun h c
  have hv := Prod.mk.inj (hc .values)
  rw [mk.injEq]
  exact ⟨Option.some.inj (hc .into), hc .columns, hv.1, hv.2, hc .keyword, hc .onConflict,
    hc .returning, hc .output, hc .with, hc .explain, hc .top, hc .endModifiers⟩

end Insert

namespace Update

/-- What an UPDATE holds for a clause. -/
def held (q : Update Node) : (c : Clause) → c.Held
  | .explain => q.explain
  | .with => q.withClause
  | .keyword => false
  | .top => q.top
  | .table => some q.table
  | .set => q.assignments
  | .from => q.fromItems
  | .joins => q.joins
  | .where => q.whereClause
  | .returning => q.returning
  | .output => q.output
  | .orderBy => q.orderBy
  | .limit => q.limit
  | .endModifiers => q.endModifiers
  | .values => (none, false)
  | .selections | .into | .columns | .using | .groupBy | .having | .onConflict | .offset => none

theorem held_injective : Function.Injective held := by
  intro q r h
  cases q
  cases r
  have hc (c : Clause) := congrFun h c
  rw [mk.injEq]
  exact ⟨Option.some.inj (hc .table), hc .set, hc .from, hc .joins, hc .where, hc .returning,
    hc .output, hc .with, hc .orderBy, hc .limit, hc .top, hc .explain, hc .endModifiers⟩

end Update

namespace Delete

/-- What a DELETE holds for a clause. -/
def held (q : Delete Node) : (c : Clause) → c.Held
  | .explain => q.explain
  | .with => q.withClause
  | .keyword => false
  | .top => q.top
  | .from => some q.fromItems
  | .using => q.usingItems
  | .joins => q.joins
  | .where => q.whereClause
  | .returning => q.returning
  | .output => q.output
  | .orderBy => q.orderBy
  | .limit => q.limit
  | .endModifiers => q.endModifiers
  | .values => (none, false)
  | .selections | .into | .columns | .table | .set | .groupBy | .having | .onConflict | .offset =>
    none

theorem held_injective : Function.Injective held := by
  intro q r h
  cases q
  cases r
  have hc (c : Clause) := congrFun h c
  rw [mk.injEq]
  exact ⟨Option.some.inj (hc .from), hc .using, hc .joins, hc .where, hc .returning, hc .with,
    hc .orderBy, hc .limit, hc .explain, hc .endModifiers, hc .top, hc .output⟩

end Delete

end SqlTree
