import SqlTree.Vocabulary

/-! The 43 kinds of nodes a query tree is made of. -/

namespace SqlTree

/-- The kind of a node: names, expressions, clauses, then the four statements. -/
inductive Kind where
  | identifier | table | column | reference | selectAll | alias
  | value | valueList | raw | operator | binaryOperation | unaryOperation | and | or | parens
  | function
  | «from» | «using» | join | «on» | «where» | selection | returning | output | orderBy
  | orderByItem | groupBy | having | limit | offset | top | explain | «with»
  | commonTableExpression | commonTableExpressionName | columnUpdate | values | onConflict
  | modifier
  | selectQuery | insertQuery | updateQuery | deleteQuery
deriving DecidableEq, Repr

namespace Kind

/-- The name of a kind, as messages and forms spell it. -/
def name : Kind → String
  | .identifier => "Identifier"
  | .table => "Table"
  | .column => "Column"
  | .reference => "Reference"
  | .selectAll => "SelectAll"
  | .alias => "Alias"
  | .value => "Value"
  | .valueList => "ValueList"
  | .raw => "Raw"
  | .operator => "Operator"
  | .binaryOperation => "BinaryOperation"
  | .unaryOperation => "UnaryOperation"
  | .and => "And"
  | .or => "Or"
  | .parens => "Parens"
  | .function => "Function"
  | .from => "From"
  | .using => "Using"
  | .join => "Join"
  | .on => "On"
  | .where => "Where"
  | .selection => "Selection"
  | .returning => "Returning"
  | .output => "Output"
  | .orderBy => "OrderBy"
  | .orderByItem => "OrderByItem"
  | .groupBy => "GroupBy"
  | .having => "Having"
  | .limit => "Limit"
  | .offset => "Offset"
  | .top => "Top"
  | .explain => "Explain"
  | .with => "With"
  | .commonTableExpression => "CommonTableExpression"
  | .commonTableExpressionName => "CommonTableExpressionName"
  | .columnUpdate => "ColumnUpdate"
  | .values => "Values"
  | .onConflict => "OnConflict"
  | .modifier => "Modifier"
  | .selectQuery => "SelectQuery"
  | .insertQuery => "InsertQuery"
  | .updateQuery => "UpdateQuery"
  | .deleteQuery => "DeleteQuery"

/-- Every kind, in the order of declaration. -/
def all : List Kind :=
  [.identifier, .table, .column, .reference, .selectAll, .alias, .value, .valueList, .raw,
   .operator, .binaryOperation, .unaryOperation, .and, .or, .parens, .function, .from, .using,
   .join, .on, .where, .selection, .returning, .output, .orderBy, .orderByItem, .groupBy,
   .having, .limit, .offset, .top, .explain, .with, .commonTableExpression,
   .commonTableExpressionName, .columnUpdate, .values, .onConflict, .modifier, .selectQuery,
   .insertQuery, .updateQuery, .deleteQuery]

instance : Named Kind := ⟨all, name⟩

/-- The four kinds of statements. -/
def isStatement : Kind → Bool
  | .selectQuery | .insertQuery | .updateQuery | .deleteQuery => true
  | _ => false

end Kind

end SqlTree
