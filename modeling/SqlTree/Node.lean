import SqlTree.Name
import SqlTree.Value
import SqlTree.Vocabulary

/-! Query trees. Each kind of node is a constructor of `Node`. A slot that takes one kind only holds
what a node of that kind carries: the slot of a WHERE clause holds its predicate, the slot of a FROM
clause its items. Slots of type `Node` take any kind. -/

namespace SqlTree

/-- An expression to sort by. -/
structure SortItem (α : Type) where
  expr : α
  direction : Option Direction

/-- A join with an optional condition. -/
structure Join (α : Type) where
  type : JoinType
  table : α
  condition : Option α

/-- EXPLAIN, with an output format and further options. -/
structure Explain (α : Type) where
  format : Option ExplainFormat
  options : Option α

/-- A common table expression. The flag asks for MATERIALIZED or NOT MATERIALIZED. -/
structure Cte (α : Type) where
  name : CteName
  materialized : Option Bool
  body : α

/-- A WITH clause. -/
structure With (α : Type) where
  isRecursive : Bool
  ctes : List (Cte α)

/-- The assignment of a value to a column. -/
structure Assignment (α : Type) where
  column : Column
  value : α

/-- What an INSERT does about a conflicting row: nothing, or the updates. -/
structure OnConflict (α : Type) where
  columns : Option (List Column) := none
  constraint : Option Identifier := none
  doNothing : Bool
  updates : Option (List (Assignment α)) := none
  updateWhere : Option α := none

/-- TOP: a literal number of rows. -/
structure Top where
  count : UInt64
  modifier : Option TopModifier
deriving DecidableEq

/-- A SELECT. Without selections it selects everything. -/
structure Select (α : Type) where
  fromItems : Option (List α) := none
  selections : Option (List α) := none
  distinct : Bool := false
  joins : Option (List (Join α)) := none
  whereClause : Option α := none
  groupBy : Option (List α) := none
  having : Option α := none
  orderBy : Option (List (SortItem α)) := none
  limit : Option α := none
  offset : Option α := none
  withClause : Option (With α) := none
  explain : Option (Explain α) := none
  top : Option Top := none
  endModifiers : Option (List α) := none

/-- An INSERT. Its rows come from the source, a VALUES clause or a query, or are the defaults. -/
structure Insert (α : Type) where
  into : Table
  columns : Option (List Column) := none
  source : Option α := none
  defaultValues : Bool := false
  ignore : Bool := false
  onConflict : Option (OnConflict α) := none
  returning : Option (List α) := none
  output : Option (List α) := none
  withClause : Option (With α) := none
  explain : Option (Explain α) := none
  top : Option Top := none
  endModifiers : Option (List α) := none

/-- An UPDATE. -/
structure Update (α : Type) where
  table : α
  assignments : Option (List (Assignment α)) := none
  fromItems : Option (List α) := none
  joins : Option (List (Join α)) := none
  whereClause : Option α := none
  returning : Option (List α) := none
  output : Option (List α) := none
  withClause : Option (With α) := none
  orderBy : Option (List (SortItem α)) := none
  limit : Option α := none
  top : Option Top := none
  explain : Option (Explain α) := none
  endModifiers : Option (List α) := none

/-- A DELETE. Only the items it deletes from are mandatory. -/
structure Delete (α : Type) where
  fromItems : List α
  usingItems : Option (List α) := none
  joins : Option (List (Join α)) := none
  whereClause : Option α := none
  returning : Option (List α) := none
  withClause : Option (With α) := none
  orderBy : Option (List (SortItem α)) := none
  limit : Option α := none
  explain : Option (Explain α) := none
  endModifiers : Option (List α) := none
  top : Option Top := none
  output : Option (List α) := none

/-- A node of a query tree. -/
inductive Node where
  | identifier (i : Identifier)
  | table (t : Table)
  | column (c : Column)
  | reference (table : Option Table) (column : Node)
  | selectAll
  | alias (node : Node) (name : Identifier)
  /-- A value: bound as a parameter, or immediate and written as a literal. -/
  | value (v : Value) (immediate : Bool)
  | valueList (values : List Node)
  /-- Verbatim text, with a parameter after each fragment but the last. -/
  | raw (fragments : List String) (parameters : List Node)
  | operator (op : Operator)
  | binary (left : Node) (op : Operator) (right : Node)
  | unary (op : Operator) (operand : Node)
  | and (left right : Node)
  | or (left right : Node)
  | parens (node : Node)
  /-- A call. The name is written verbatim. -/
  | function (name : String) (arguments : List Node)
  | «from» (items : List Node)
  | «using» (items : List Node)
  | join (j : Join Node)
  | «on» (condition : Node)
  | «where» (predicate : Node)
  | selection (expr : Node)
  | returning (selections : List Node)
  | output (selections : List Node)
  | orderBy (items : List (SortItem Node))
  | orderByItem (item : SortItem Node)
  | groupBy (items : List Node)
  | having (predicate : Node)
  | limit (count : Node)
  | offset (count : Node)
  | top (t : Top)
  | explain (e : Explain Node)
  | «with» (w : With Node)
  | cte (c : Cte Node)
  | cteName (n : CteName)
  | assignment (a : Assignment Node)
  | values (rows : List (List Node))
  | onConflict (c : OnConflict Node)
  | modifier (m : StatementModifier)
  | select (q : Select Node)
  | insert (q : Insert Node)
  | update (q : Update Node)
  | delete (q : Delete Node)

namespace Node

/-- The kind of a node. -/
def kind : Node → Kind
  | .identifier _ => .identifier
  | .table _ => .table
  | .column _ => .column
  | .reference .. => .reference
  | .selectAll => .selectAll
  | .alias .. => .alias
  | .value .. => .value
  | .valueList _ => .valueList
  | .raw .. => .raw
  | .operator _ => .operator
  | .binary .. => .binaryOperation
  | .unary .. => .unaryOperation
  | .and .. => .and
  | .or .. => .or
  | .parens _ => .parens
  | .function .. => .function
  | .from _ => .from
  | .using _ => .using
  | .join _ => .join
  | .on _ => .on
  | .where _ => .where
  | .selection _ => .selection
  | .returning _ => .returning
  | .output _ => .output
  | .orderBy _ => .orderBy
  | .orderByItem _ => .orderByItem
  | .groupBy _ => .groupBy
  | .having _ => .having
  | .limit _ => .limit
  | .offset _ => .offset
  | .top _ => .top
  | .explain _ => .explain
  | .with _ => .with
  | .cte _ => .commonTableExpression
  | .cteName _ => .commonTableExpressionName
  | .assignment _ => .columnUpdate
  | .values _ => .values
  | .onConflict _ => .onConflict
  | .modifier _ => .modifier
  | .select _ => .selectQuery
  | .insert _ => .insertQuery
  | .update _ => .updateQuery
  | .delete _ => .deleteQuery

/-- The node itself, if it is of the given kind. -/
def expect (k : Kind) (n : Node) : Except Error Node :=
  if n.kind = k then .ok n else .error (.mismatch k n.kind)

end Node

/-- A kind together with what its nodes carry. -/
structure KindOf (α : Type) where
  kind : Kind
  make : α → Node
  get? : Node → Option α

/-- What a node of the given kind carries. -/
def Node.as {α : Type} (k : KindOf α) (n : Node) : Except Error α :=
  match k.get? n with
  | some a => .ok a
  | none => .error (.mismatch k.kind n.kind)

namespace KindOf

def identifier : KindOf Identifier :=
  ⟨.identifier, .identifier, fun | .identifier a => some a | _ => none⟩
def table : KindOf Table := ⟨.table, .table, fun | .table a => some a | _ => none⟩
def column : KindOf Column := ⟨.column, .column, fun | .column a => some a | _ => none⟩
def operator : KindOf Operator := ⟨.operator, .operator, fun | .operator a => some a | _ => none⟩
def valueList : KindOf (List Node) :=
  ⟨.valueList, .valueList, fun | .valueList a => some a | _ => none⟩
def «from» : KindOf (List Node) := ⟨.from, .from, fun | .from a => some a | _ => none⟩
def «using» : KindOf (List Node) := ⟨.using, .using, fun | .using a => some a | _ => none⟩
def join : KindOf (Join Node) := ⟨.join, .join, fun | .join a => some a | _ => none⟩
def «on» : KindOf Node := ⟨.on, .on, fun | .on a => some a | _ => none⟩
def «where» : KindOf Node := ⟨.where, .where, fun | .where a => some a | _ => none⟩
def selection : KindOf Node := ⟨.selection, .selection, fun | .selection a => some a | _ => none⟩
def returning : KindOf (List Node) :=
  ⟨.returning, .returning, fun | .returning a => some a | _ => none⟩
def output : KindOf (List Node) := ⟨.output, .output, fun | .output a => some a | _ => none⟩
def orderBy : KindOf (List (SortItem Node)) :=
  ⟨.orderBy, .orderBy, fun | .orderBy a => some a | _ => none⟩
def orderByItem : KindOf (SortItem Node) :=
  ⟨.orderByItem, .orderByItem, fun | .orderByItem a => some a | _ => none⟩
def groupBy : KindOf (List Node) := ⟨.groupBy, .groupBy, fun | .groupBy a => some a | _ => none⟩
def having : KindOf Node := ⟨.having, .having, fun | .having a => some a | _ => none⟩
def limit : KindOf Node := ⟨.limit, .limit, fun | .limit a => some a | _ => none⟩
def offset : KindOf Node := ⟨.offset, .offset, fun | .offset a => some a | _ => none⟩
def top : KindOf Top := ⟨.top, .top, fun | .top a => some a | _ => none⟩
def explain : KindOf (Explain Node) := ⟨.explain, .explain, fun | .explain a => some a | _ => none⟩
def «with» : KindOf (With Node) := ⟨.with, .with, fun | .with a => some a | _ => none⟩
def cte : KindOf (Cte Node) := ⟨.commonTableExpression, .cte, fun | .cte a => some a | _ => none⟩
def cteName : KindOf CteName :=
  ⟨.commonTableExpressionName, .cteName, fun | .cteName a => some a | _ => none⟩
def assignment : KindOf (Assignment Node) :=
  ⟨.columnUpdate, .assignment, fun | .assignment a => some a | _ => none⟩
def values : KindOf (List (List Node)) := ⟨.values, .values, fun | .values a => some a | _ => none⟩
def onConflict : KindOf (OnConflict Node) :=
  ⟨.onConflict, .onConflict, fun | .onConflict a => some a | _ => none⟩
def select : KindOf (Select Node) := ⟨.selectQuery, .select, fun | .select a => some a | _ => none⟩
def insert : KindOf (Insert Node) := ⟨.insertQuery, .insert, fun | .insert a => some a | _ => none⟩
def update : KindOf (Update Node) := ⟨.updateQuery, .update, fun | .update a => some a | _ => none⟩
def delete : KindOf (Delete Node) := ⟨.deleteQuery, .delete, fun | .delete a => some a | _ => none⟩

end KindOf

end SqlTree
