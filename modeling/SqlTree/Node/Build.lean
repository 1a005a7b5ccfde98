import SqlTree.Node

/-! Building nodes. A constructor of `Node` is used as it is where every argument makes a good
node; the functions here check what their arguments must satisfy. -/

namespace SqlTree

/-- A clause that is a list of items and never empty. -/
structure ItemClause where
  kind : Kind
  fault : Fault
deriving DecidableEq, Repr

namespace ItemClause

def «from» : ItemClause := ⟨.from, .noTable⟩
def «using» : ItemClause := ⟨.using, .noTable⟩
def returning : ItemClause := ⟨.returning, .noSelection⟩
def output : ItemClause := ⟨.output, .noSelection⟩
def orderBy : ItemClause := ⟨.orderBy, .noItem⟩
def groupBy : ItemClause := ⟨.groupBy, .noItem⟩
def valueList : ItemClause := ⟨.valueList, .noValue⟩
def values : ItemClause := ⟨.values, .noRow⟩

/-- The items themselves, if there are any. -/
def items {α : Type} (c : ItemClause) (xs : List α) : Except Error (List α) :=
  if xs.isEmpty then .error (.invalid c.kind c.fault) else .ok xs

end ItemClause

/-- Merges two predicates. -/
def Connective.merge : Connective → Node → Node → Node
  | .and, p, q => .and p q
  | .or, p, q => .or p q

/-- Adds a predicate to an optional one. -/
def Connective.mergeOpt (op : Connective) (p : Option Node) (q : Node) : Node :=
  match p with
  | some p => op.merge p q
  | none => q

namespace Node

/-- A table given by its name. -/
def tableNamed (name : String) : Except Error Node := do
  return .table (← Table.ofString name)

/-- The tables given by their names. -/
def tablesNamed (names : List String) : Except Error (List Node) :=
  names.mapM tableNamed

/-- A column, of a table if one is given. -/
def columnRef (column : Column) (table : Option Table) : Node :=
  .reference table (.column column)

/-- All columns of a table. -/
def allOf (table : Table) : Node := .reference (some table) .selectAll

/-- The parts of a text before and after its last dot. -/
def splitLastDot (cs : List Char) : Option (List Char × List Char) :=
  let last := (cs.reverse.takeWhile (· != '.')).reverse
  if last.length = cs.length then none
  else some (cs.take (cs.length - last.length - 1), last)

/-- Reads a column name with an optional table name before its last dot. A star in place of the
column stands for all columns of the table. -/
def dotted (name : String) : Except Error Node :=
  match splitLastDot name.toList with
  | none => do return columnRef (← Column.ofString name) none
  | some (qualifier, last) =>
    if last = ['*'] then do return allOf (← Table.ofString (String.ofList qualifier))
    else do
      let c ← Column.ofString (String.ofList last)
      return columnRef c (some (← Table.ofString (String.ofList qualifier)))

/-- A node under another name. -/
def aliased (node : Node) (name : String) : Except Error Node := do
  return .alias node (← Identifier.ofString name)

/-- A value that is bound as a parameter. -/
def bound (v : Value) : Node := .value v false

/-- A value that is written as a literal. -/
def literal (v : Value) : Node := .value v true

/-- A list of expressions in parentheses. -/
def list (values : List Node) : Except Error Node := do
  return .valueList (← ItemClause.valueList.items values)

/-- Verbatim text around parameters. -/
def rawWith (fragments : List String) (parameters : List Node) : Except Error Node :=
  if fragments.length = parameters.length + 1 then .ok (.raw fragments parameters)
  else .error (.invalid .raw .fragmentCount)

/-- Verbatim text. -/
def rawText (sql : String) : Node := .raw [sql] []

/-- A unary operation. -/
def applied (op : Operator) (operand : Node) : Except Error Node :=
  if op.isUnary then .ok (.unary op operand) else .error (.invalid .unaryOperation .binaryOperator)

/-- A function call. -/
def call (name : String) (arguments : List Node) : Except Error Node :=
  if name.isEmpty then .error (.invalid .function .emptyName) else .ok (.function name arguments)

/-- A count of rows, bound as a parameter. -/
def rowCount (n : Int64) : Node := bound (.int n)

end Node

namespace Join

/-- Adds a condition to those of a join. -/
def withCondition (j : Join Node) (condition : Node) : Join Node :=
  { j with condition := some (Connective.and.mergeOpt j.condition condition) }

end Join

namespace With

/-- A WITH clause of one expression. -/
def single (c : Cte Node) (isRecursive : Bool) : With Node := ⟨isRecursive, [c]⟩

/-- Adds an expression at the end. -/
def add (w : With Node) (c : Cte Node) : With Node := { w with ctes := w.ctes ++ [c] }

/-- Two WITH clauses in one, recursive if either is. -/
def merge (w x : With Node) : With Node :=
  ⟨w.isRecursive || x.isRecursive, w.ctes ++ x.ctes⟩

/-- The names a WITH clause binds. -/
def names {α : Type} (w : With α) : List String := w.ctes.map (·.name.table.name)

end With

namespace Assignment

/-- Assigns a bound value to a named column. -/
def ofValue (column : String) (v : Value) : Except Error (Assignment Node) := do
  return ⟨← Column.ofString column, .bound v⟩

end Assignment

namespace OnConflict

/-- The columns whose conflict is meant, if any. -/
def target (columns : List Column) : Option (List Column) :=
  if columns.isEmpty then none else some columns

/-- Ignores a conflicting row. -/
def ignoring (columns : List Column) : OnConflict Node :=
  { columns := target columns, doNothing := true }

/-- Updates the row in conflict. -/
def updating (columns : List Column) (updates : List (Assignment Node)) :
    Except Error (OnConflict Node) :=
  if updates.isEmpty then .error (.invalid .onConflict .noConflictUpdate)
  else .ok { columns := target columns, doNothing := false, updates := some updates }

/-- Names the constraint whose conflict is meant. -/
def withConstraint (c : OnConflict Node) (name : String) : Except Error (OnConflict Node) := do
  return { c with constraint := some (← Identifier.ofString name) }

/-- Adds a condition to those under which the row is updated. -/
def withCondition (c : OnConflict Node) (condition : Node) : OnConflict Node :=
  { c with updateWhere := some (Connective.and.mergeOpt c.updateWhere condition) }

end OnConflict

/-- A SELECT from a list of items, which must not be empty. -/
def Select.ofItems (items : List Node) (w : Option (With Node)) : Except Error (Select Node) := do
  return { fromItems := some (← ItemClause.from.items items), withClause := w }

/-- An INSERT into a table. -/
def Insert.ofTable (table : Table) (w : Option (With Node)) : Insert Node :=
  { into := table, withClause := w }

/-- An UPDATE of a table. -/
def Update.ofTable (table : Node) (w : Option (With Node)) : Update Node :=
  { table, withClause := w }

/-- A DELETE from a list of items, which must not be empty. -/
def Delete.ofItems (items : List Node) (w : Option (With Node)) : Except Error (Delete Node) := do
  return { fromItems := ← ItemClause.from.items items, withClause := w }

end SqlTree
