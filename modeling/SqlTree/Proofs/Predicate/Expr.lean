import SqlTree.Node.Build
import SqlTree.Proofs.Emission.Walk

/-! # Expressions

What a predicate says, without the parentheses that group it: a run of one connective is a list,
so that two predicates that differ in redundant parentheses and in how such runs are associated
are one expression. -/

namespace SqlTree

/-- An expression over columns and values. -/
inductive Expr where
  /-- A column behind its table and schema. -/
  | column (path : List String)
  | value (v : Value)
  | call (name : String) (arguments : List Expr)
  | neg (e : Expr)
  | not (e : Expr)
  | binary (l : Expr) (op : Operator) (r : Expr)
  /-- Expressions with one connective between each two. -/
  | run (c : Connective) (es : List Expr)

namespace Expr

/-- The members of a run of the connective, or the expression itself. -/
def members (c : Connective) : Expr → List Expr
  | .run c' es => if c' = c then es else [.run c' es]
  | e => [e]

/-- Two expressions with a connective between them. -/
def combine (c : Connective) (l r : Expr) : Expr := .run c (l.members c ++ r.members c)

theorem members_combine (c : Connective) (l r : Expr) :
    (combine c l r).members c = l.members c ++ r.members c := by
  rw [combine, members, if_pos rfl]

/-- How a run is associated does not matter. -/
theorem combine_assoc (c : Connective) (l m r : Expr) :
    combine c (combine c l m) r = combine c l (combine c m r) := by
  rw [combine, members_combine, combine, members_combine, List.append_assoc]

/-- Expressions with a connective between each two. -/
def joined (c : Connective) : List Expr → Option Expr
  | [] => none
  | e :: es => some (es.foldl (combine c) e)

theorem combine_foldl (c : Connective) (l r : Expr) (es : List Expr) :
    es.foldl (combine c) (combine c l r) = combine c l (es.foldl (combine c) r) := by
  induction es generalizing r with
  | nil => rfl
  | cons e es ih => rw [List.foldl_cons, List.foldl_cons, combine_assoc, ih]

theorem joined_append {c : Connective} {ls rs : List Expr} {l r : Expr}
    (hl : joined c ls = some l) (hr : joined c rs = some r) :
    joined c (ls ++ rs) = some (combine c l r) := by
  cases ls with
  | nil => cases hl
  | cons l' ls =>
      cases rs with
      | nil => cases hr
      | cons r' rs =>
          cases hl
          cases hr
          rw [List.cons_append, joined, List.foldl_append, List.foldl_cons, combine_foldl]

end Expr

/-! ## Predicates -/

/-- The names in front of a column of a table. -/
def Table.path (t : Table) : List String := (t.schema.toList ++ [t.table]).map (·.name)

mutual

/-- The expression of a predicate: a tree of connectives, parentheses, NOT, unary minus and binary
operators over columns, bound values and calls. -/
def Node.expr? : Node → Option Expr
  | .column c => some (.column [c.column.name])
  | .reference t (.column c) =>
    some (.column ((t.map Table.path).getD [] ++ [c.column.name]))
  | .value v false => some (.value v)
  | .function name ns => (Node.exprs? ns).map (.call name)
  | .parens n => n.expr?
  | .and l r => do return .combine .and (← l.expr?) (← r.expr?)
  | .or l r => do return .combine .or (← l.expr?) (← r.expr?)
  | .unary .not n => n.expr?.map .not
  | .unary .neg n => n.expr?.map .neg
  | .binary l op r => do
    if op.isUnary then none else return .binary (← l.expr?) op (← r.expr?)
  | _ => none
termination_by structural n => n

/-- The expressions of predicates. -/
def Node.exprs? : List Node → Option (List Expr)
  | [] => some []
  | n :: ns => do return (← n.expr?) :: (← Node.exprs? ns)
termination_by structural ns => ns

end

namespace Node

variable {n l r : Node} {e : Expr}

theorem expr?_and_eq_some : (and l r).expr? = some e ↔
    ∃ f g, l.expr? = some f ∧ r.expr? = some g ∧ e = .combine .and f g := by
  cases hl : l.expr? <;> cases hr : r.expr? <;> simp [expr?, hl, hr, eq_comm]

theorem expr?_or_eq_some : (or l r).expr? = some e ↔
    ∃ f g, l.expr? = some f ∧ r.expr? = some g ∧ e = .combine .or f g := by
  cases hl : l.expr? <;> cases hr : r.expr? <;> simp [expr?, hl, hr, eq_comm]

theorem expr?_binary_eq_some {op : Operator} : (binary l op r).expr? = some e ↔
    op.isUnary = false ∧ ∃ f g, l.expr? = some f ∧ r.expr? = some g ∧ e = .binary f op g := by
  cases hl : l.expr? <;> cases hr : r.expr? <;> cases hop : op.isUnary <;>
    simp [expr?, hl, hr, hop, eq_comm]

theorem expr?_unary_eq_some {op : Operator} : (unary op n).expr? = some e ↔
    ∃ f, n.expr? = some f ∧ (op = .not ∧ e = .not f ∨ op = .neg ∧ e = .neg f) := by
  cases op <;> cases hn : n.expr? <;> simp [expr?, hn, eq_comm]

theorem expr?_function_eq_some {s : String} {ns : List Node} : (function s ns).expr? = some e ↔
    ∃ es, exprs? ns = some es ∧ e = .call s es := by
  cases hns : exprs? ns <;> simp [expr?, hns, eq_comm]

theorem exprs?_cons_eq_some {ns : List Node} {es : List Expr} : exprs? (n :: ns) = some es ↔
    ∃ f fs, n.expr? = some f ∧ exprs? ns = some fs ∧ es = f :: fs := by
  cases hn : n.expr? <;> cases hns : exprs? ns <;> simp [exprs?, hn, hns, eq_comm]

end Node

end SqlTree
