import SqlTree.Sql.Operand
import SqlTree.Sql.Piece

/-! Compiling a tree: the pieces of SQL text a dialect writes for each kind of node, their text, and
the values bound to its placeholders. -/

namespace SqlTree

/-! ### Checks and names -/

namespace Dialect

/-- Refuses a kind the dialect has no syntax for. -/
def gate (d : Dialect) (k : Kind) (r : Rendering) : Rendering :=
  if d.supports k then r else .error (.unsupported k.name d.name)

def renderIdentifier (d : Dialect) (i : Identifier) : Rendering :=
  d.gate .identifier (.ok [.name i.name])

def renderTable (d : Dialect) (t : Table) : Rendering :=
  d.gate .table <| .seq
    [.optional (t.schema.map fun s => .seq [d.renderIdentifier s, .text "."]),
     d.renderIdentifier t.table]

def renderColumn (d : Dialect) (c : Column) : Rendering :=
  d.gate .column (d.renderIdentifier c.column)

def renderColumns (d : Dialect) (cs : List Column) : Rendering :=
  .seq [.text "(", .separated ", " (cs.map d.renderColumn), .text ")"]

def renderOperator (d : Dialect) (op : Operator) : Rendering :=
  d.gate .operator (.text (d.operator op))

def renderCteName (d : Dialect) (n : CteName) : Rendering :=
  d.gate .commonTableExpressionName <| .seq
    [d.renderIdentifier n.table, .optional (n.columns.map d.renderColumns)]

def renderTop (d : Dialect) (t : Top) : Rendering :=
  d.gate .top <| .seq
    [.text ("TOP(" ++ toString t.count.toNat ++ ")"),
     .optional (t.modifier.map fun m => .text (" " ++ m.sql))]

def renderModifier (d : Dialect) (m : StatementModifier) : Rendering :=
  d.gate .modifier (.text m.sql)

/-! ### Clauses around what they carry -/

/-- A clause of one kind: a keyword, then its items with commas. -/
def renderItems (d : Dialect) (k : Kind) (keyword : String) (rs : List Rendering) : Rendering :=
  d.gate k (.seq [.text keyword, .separated ", " rs])

def renderFrom (d : Dialect) : List Rendering → Rendering := d.renderItems .from "FROM "

def renderUsing (d : Dialect) : List Rendering → Rendering := d.renderItems .using "USING "

def renderOn (d : Dialect) (r : Rendering) : Rendering := d.renderItems .on "ON " [r]

def renderWhere (d : Dialect) (r : Rendering) : Rendering := d.renderItems .where "WHERE " [r]

def renderHaving (d : Dialect) (r : Rendering) : Rendering := d.renderItems .having "HAVING " [r]

def renderSelection (d : Dialect) (r : Rendering) : Rendering := d.gate .selection r

def renderReturning (d : Dialect) (rs : List Rendering) : Rendering :=
  d.renderItems .returning "RETURNING " (rs.map d.renderSelection)

def renderOutput (d : Dialect) : List Rendering → Rendering := d.renderItems .output "OUTPUT "

def renderOrderBy (d : Dialect) : List Rendering → Rendering :=
  d.renderItems .orderBy "ORDER BY "

def renderGroupBy (d : Dialect) : List Rendering → Rendering :=
  d.renderItems .groupBy "GROUP BY "

def renderLimit (d : Dialect) (r : Rendering) : Rendering := d.renderItems .limit "LIMIT " [r]

def renderOffset (d : Dialect) (r : Rendering) : Rendering :=
  d.gate .offset (.seq [.text "OFFSET ", r, .text d.offsetSuffix])

def renderValueList (d : Dialect) (rs : List Rendering) : Rendering :=
  d.gate .valueList (.parenthesized true (.separated ", " rs))

/-- An expression to sort by. -/
def renderOrderByItem (d : Dialect) (r : Rendering) (direction : Option Direction) : Rendering :=
  d.gate .orderByItem <| .seq
    [r, .optional (direction.map fun dir => .text (" " ++ dir.sql))]

/-- EXPLAIN, whose options need a syntax in the dialect. -/
def renderExplain (d : Dialect) (format : Option ExplainFormat) (options : Option Rendering) :
    Rendering :=
  d.gate .explain <|
    if format.isNone && options.isNone then .text "EXPLAIN"
    else
      match d.explainSyntax with
      | none => .error (.unsupported "EXPLAIN options" d.name)
      | some x => .seq
        [.text ("EXPLAIN " ++ x.opening), .optional options,
         .optional (format.map fun f => .text
          ((if options.isSome then x.delimiter else "") ++ "FORMAT" ++ x.assignment ++ f.sql)),
         .text x.closing]

/-- MATERIALIZED or its negation. -/
def materializedText : Option Bool → String
  | some true => "MATERIALIZED "
  | some false => "NOT MATERIALIZED "
  | none => ""

/-- What an INSERT does about a conflicting row. Doing nothing leaves out the updates. -/
def renderOnConflict (d : Dialect) (columns : Option (List Column))
    (constraint : Option Identifier) (doNothing : Bool) (updates : Option (List Rendering))
    (updateWhere : Option Rendering) : Rendering :=
  let action : Rendering :=
    if doNothing then .text " DO NOTHING"
    else
      match updates with
      | none | some [] => .error (.invalid .onConflict .noConflictAction)
      | some us => .seq
        [.text " DO UPDATE SET ", .separated ", " us,
         .optional (updateWhere.map fun r => .seq [.text " ", d.renderWhere r])]
  d.gate .onConflict <| .seq
    [.text "ON CONFLICT",
     .optional (columns.map fun cs => .seq [.text " ", d.renderColumns cs]),
     .optional (constraint.map fun i => .seq [.text " ON CONSTRAINT ", d.renderIdentifier i]),
     action]

/-! ### Statements -/

/-- The clauses that leave some text, with a space between each two. -/
def spaced (clauses : List (List Piece)) : List Piece :=
  List.intercalate [.text " "] (clauses.filter fun ps => !ps.all Piece.isEmpty)

/-- A statement from its clauses, in the order of the dialect. A clause without a place in that
order is refused. -/
def renderStatement (d : Dialect) (k : StatementKind) (clauses : List (Clause × Rendering)) :
    Rendering :=
  let order := d.clauseOrder k
  match clauses.find? fun c => !order.contains c.1 with
  | some c => .error (.unsupported c.1.name d.name)
  | none => do
    return spaced (← order.mapM fun c => (clauses.lookup c).getD (.ok []))

/-- A clause that may be missing from a statement. -/
def clause (c : Clause) (r : Option Rendering) : List (Clause × Rendering) :=
  r.toList.map (c, ·)

end Dialect

/-! ### Trees -/

/-- An operand, in parentheses where its position asks for them. -/
def OperandPosition.render (position : OperandPosition) (n : Node) (r : Rendering) : Rendering :=
  .parenthesized (position.parenthesizes n) r

mutual

/-- The pieces of a node. A statement stands in parentheses where it is nested, that is
everywhere but at the root, in parentheses, and directly in an INSERT. -/
def Node.render (d : Dialect) (nested : Bool) : Node → Rendering
  | .identifier i => d.renderIdentifier i
  | .table t => d.renderTable t
  | .column c => d.renderColumn c
  | .reference t c => d.gate .reference <| .seq
    [.optional (t.map fun t => .seq [d.renderTable t, .text "."]), c.render d true]
  | .selectAll => d.gate .selectAll (.text "*")
  | .alias n i => d.gate .alias <| .seq [n.render d true, .text " AS ", d.renderIdentifier i]
  | .value v immediate => d.gate .value (.ok [if immediate then .literal v else .bound v])
  | .valueList ns => d.renderValueList (Node.renderAll d true ns)
  | .raw fragments ns => d.gate .raw (.interleaved fragments (Node.renderAll d true ns))
  | .operator op => d.renderOperator op
  | .binary l op r => d.gate .binaryOperation <| .seq
    [OperandPosition.binary.render l (l.render d true), .text " ", d.renderOperator op,
     .text " ", OperandPosition.binary.render r (r.render d true)]
  | .unary op n => d.gate .unaryOperation <|
    if op = .neg then .seq
      [d.renderOperator op, OperandPosition.negated.render n (n.render d true)]
    else .seq
      [d.renderOperator op, .text " ",
       OperandPosition.prefixed.render n (n.render d true)]
  | .and l r => d.gate .and <| .seq
    [OperandPosition.conjunction.render l (l.render d true), .text " AND ",
     OperandPosition.conjunction.render r (r.render d true)]
  | .or l r => d.gate .or <| .seq [l.render d true, .text " OR ", r.render d true]
  | .parens n => d.gate .parens (.parenthesized true (n.render d false))
  | .function name ns => d.gate .function <| .seq
    [.text name, .parenthesized true (.separated ", " (Node.renderAll d true ns))]
  | .from ns => d.renderFrom (Node.renderAll d true ns)
  | .using ns => d.renderUsing (Node.renderAll d true ns)
  | .join j => j.render d
  | .on n => d.renderOn (n.render d true)
  | .where n => d.renderWhere (n.render d true)
  | .selection n => d.renderSelection (n.render d true)
  | .returning ns => d.renderReturning (Node.renderAll d true ns)
  | .output ns => d.renderOutput (Node.renderAll d true ns)
  | .orderBy is => d.renderOrderBy (SortItem.renderAll d is)
  | .orderByItem i => i.render d
  | .groupBy ns => d.renderGroupBy (Node.renderAll d true ns)
  | .having n => d.renderHaving (n.render d true)
  | .limit n => d.renderLimit (n.render d true)
  | .offset n => d.renderOffset (n.render d true)
  | .top t => d.renderTop t
  | .explain e => e.render d
  | .with w => w.render d
  | .cte c => c.render d
  | .cteName n => d.renderCteName n
  | .assignment a => a.render d
  | .values rows => d.renderItems .values "VALUES " (Node.renderRows d rows)
  | .onConflict c => c.render d
  | .modifier m => d.renderModifier m
  | .select q => d.gate .selectQuery (.parenthesized nested (q.render d))
  | .insert q => d.gate .insertQuery (.parenthesized nested (q.render d))
  | .update q => d.gate .updateQuery (.parenthesized nested (q.render d))
  | .delete q => d.gate .deleteQuery (.parenthesized nested (q.render d))
termination_by structural x => x

def Node.renderAll (d : Dialect) (nested : Bool) : List Node → List Rendering
  | [] => []
  | n :: ns => n.render d nested :: Node.renderAll d nested ns
termination_by structural x => x

def Node.renderOpt (d : Dialect) (nested : Bool) : Option Node → Option Rendering
  | none => none
  | some n => some (n.render d nested)
termination_by structural x => x

def Node.renderOptAll (d : Dialect) (nested : Bool) : Option (List Node) → Option (List Rendering)
  | none => none
  | some ns => some (Node.renderAll d nested ns)
termination_by structural x => x

def Node.renderRows (d : Dialect) : List (List Node) → List Rendering
  | [] => []
  | row :: rows => d.renderValueList (Node.renderAll d true row) :: Node.renderRows d rows
termination_by structural x => x

def SortItem.render (d : Dialect) : SortItem Node → Rendering
  | ⟨expr, direction⟩ => d.renderOrderByItem (expr.render d true) direction
termination_by structural x => x

def SortItem.renderAll (d : Dialect) : List (SortItem Node) → List Rendering
  | [] => []
  | x :: xs => x.render d :: SortItem.renderAll d xs
termination_by structural x => x

def SortItem.renderOptAll (d : Dialect) :
    Option (List (SortItem Node)) → Option (List Rendering)
  | none => none
  | some xs => some (SortItem.renderAll d xs)
termination_by structural x => x

def Join.render (d : Dialect) : Join Node → Rendering
  | ⟨type, table, condition⟩ => d.gate .join <| .seq
    [.text (type.sql ++ " "), table.render d true,
     .optional ((Node.renderOpt d true condition).map fun r => .seq [.text " ", d.renderOn r])]
termination_by structural x => x

def Join.renderAll (d : Dialect) : List (Join Node) → List Rendering
  | [] => []
  | x :: xs => x.render d :: Join.renderAll d xs
termination_by structural x => x

def Join.renderOptAll (d : Dialect) :
    Option (List (Join Node)) → Option (List Rendering)
  | none => none
  | some xs => some (Join.renderAll d xs)
termination_by structural x => x

def Explain.render (d : Dialect) : Explain Node → Rendering
  | ⟨format, options⟩ => d.renderExplain format (Node.renderOpt d true options)
termination_by structural x => x

def Explain.renderOpt (d : Dialect) : Option (Explain Node) → Option Rendering
  | none => none
  | some x => some (x.render d)
termination_by structural x => x

def Cte.render (d : Dialect) : Cte Node → Rendering
  | ⟨name, materialized, body⟩ => d.gate .commonTableExpression <| .seq
    [d.renderCteName name, .text (" AS " ++ Dialect.materializedText materialized),
     body.render d true]
termination_by structural x => x

def Cte.renderAll (d : Dialect) : List (Cte Node) → List Rendering
  | [] => []
  | x :: xs => x.render d :: Cte.renderAll d xs
termination_by structural x => x

def With.render (d : Dialect) : With Node → Rendering
  | ⟨isRecursive, ctes⟩ =>
    d.renderItems .with (if isRecursive then "WITH RECURSIVE " else "WITH ")
      (Cte.renderAll d ctes)
termination_by structural x => x

def With.renderOpt (d : Dialect) : Option (With Node) → Option Rendering
  | none => none
  | some x => some (x.render d)
termination_by structural x => x

def Assignment.render (d : Dialect) : Assignment Node → Rendering
  | ⟨column, value⟩ => d.gate .columnUpdate <| .seq
    [d.renderColumn column, .text " = ", value.render d true]
termination_by structural x => x

def Assignment.renderAll (d : Dialect) : List (Assignment Node) → List Rendering
  | [] => []
  | x :: xs => x.render d :: Assignment.renderAll d xs
termination_by structural x => x

def Assignment.renderOptAll (d : Dialect) :
    Option (List (Assignment Node)) → Option (List Rendering)
  | none => none
  | some xs => some (Assignment.renderAll d xs)
termination_by structural x => x

def OnConflict.render (d : Dialect) : OnConflict Node → Rendering
  | ⟨columns, constraint, doNothing, updates, updateWhere⟩ =>
    d.renderOnConflict columns constraint doNothing (Assignment.renderOptAll d updates)
      (Node.renderOpt d true updateWhere)
termination_by structural x => x

def OnConflict.renderOpt (d : Dialect) : Option (OnConflict Node) → Option Rendering
  | none => none
  | some x => some (x.render d)
termination_by structural x => x

def Select.render (d : Dialect) : Select Node → Rendering
  | ⟨fromItems, selections, distinct, joins, whereClause, groupBy, having, orderBy, limit, offset,
      withClause, explain, top, endModifiers⟩ =>
    let selected := match Node.renderOptAll d true selections with
      | none | some [] => .text "*"
      | some rs => .separated ", " (rs.map d.renderSelection)
    d.renderStatement .select
      ([(.keyword, .text (if distinct then "SELECT DISTINCT" else "SELECT")),
        (.selections, selected)] ++
      Dialect.clause .explain (Explain.renderOpt d explain) ++
      Dialect.clause .with (With.renderOpt d withClause) ++
      Dialect.clause .top (top.map d.renderTop) ++
      Dialect.clause .from ((Node.renderOptAll d true fromItems).map d.renderFrom) ++
      Dialect.clause .joins ((Join.renderOptAll d joins).map (.separated " ")) ++
      Dialect.clause .where ((Node.renderOpt d true whereClause).map d.renderWhere) ++
      Dialect.clause .groupBy ((Node.renderOptAll d true groupBy).map d.renderGroupBy) ++
      Dialect.clause .having ((Node.renderOpt d true having).map d.renderHaving) ++
      Dialect.clause .orderBy ((SortItem.renderOptAll d orderBy).map d.renderOrderBy) ++
      Dialect.clause .limit ((Node.renderOpt d true limit).map d.renderLimit) ++
      Dialect.clause .offset ((Node.renderOpt d true offset).map d.renderOffset) ++
      Dialect.clause .endModifiers
        ((Node.renderOptAll d true endModifiers).map (.separated " ")))
termination_by structural x => x

def Insert.render (d : Dialect) : Insert Node → Rendering
  | ⟨into, columns, source, defaultValues, ignore, onConflict, returning, output, withClause,
      explain, top, endModifiers⟩ =>
    let keyword := if ignore then d.insertIgnore else some "INSERT"
    let source := Node.renderOpt d false source
    let rendered := fun keyword => d.renderStatement .insert
      ([(.keyword, .text keyword), (.into, .seq [.text "INTO ", d.renderTable into]),
        (.values, source.getD (.text "DEFAULT VALUES"))] ++
      Dialect.clause .explain (Explain.renderOpt d explain) ++
      Dialect.clause .with (With.renderOpt d withClause) ++
      Dialect.clause .top (top.map d.renderTop) ++
      Dialect.clause .columns
        (columns.map fun cs => if cs.isEmpty then .ok [] else d.renderColumns cs) ++
      Dialect.clause .onConflict (OnConflict.renderOpt d onConflict) ++
      Dialect.clause .returning ((Node.renderOptAll d true returning).map d.renderReturning) ++
      Dialect.clause .output ((Node.renderOptAll d true output).map d.renderOutput) ++
      Dialect.clause .endModifiers
        ((Node.renderOptAll d false endModifiers).map (.separated " ")))
    if source.isNone && !defaultValues then .error (.invalid .insertQuery .noRowSource)
    else
      match keyword with
      | none => .error (.unsupported "INSERT IGNORE" d.name)
      | some keyword => rendered keyword
termination_by structural x => x

def Update.render (d : Dialect) : Update Node → Rendering
  | ⟨table, assignments, fromItems, joins, whereClause, returning, output, withClause, orderBy,
      limit, top, explain, endModifiers⟩ =>
    match Assignment.renderOptAll d assignments with
    | none | some [] => .error (.invalid .updateQuery .noAssignment)
    | some rs => d.renderStatement .update
      ([(.keyword, .text "UPDATE"), (.table, table.render d true),
        (.set, .seq [.text "SET ", .separated ", " rs])] ++
      Dialect.clause .explain (Explain.renderOpt d explain) ++
      Dialect.clause .with (With.renderOpt d withClause) ++
      Dialect.clause .top (top.map d.renderTop) ++
      Dialect.clause .from ((Node.renderOptAll d true fromItems).map d.renderFrom) ++
      Dialect.clause .joins ((Join.renderOptAll d joins).map (.separated " ")) ++
      Dialect.clause .where ((Node.renderOpt d true whereClause).map d.renderWhere) ++
      Dialect.clause .returning ((Node.renderOptAll d true returning).map d.renderReturning) ++
      Dialect.clause .output ((Node.renderOptAll d true output).map d.renderOutput) ++
      Dialect.clause .orderBy ((SortItem.renderOptAll d orderBy).map d.renderOrderBy) ++
      Dialect.clause .limit ((Node.renderOpt d true limit).map d.renderLimit) ++
      Dialect.clause .endModifiers
        ((Node.renderOptAll d true endModifiers).map (.separated " ")))
termination_by structural x => x

def Delete.render (d : Dialect) : Delete Node → Rendering
  | ⟨fromItems, usingItems, joins, whereClause, returning, withClause, orderBy, limit, explain,
      endModifiers, top, output⟩ =>
    d.renderStatement .delete
      ([(.keyword, .text "DELETE"), (.from, d.renderFrom (Node.renderAll d true fromItems))] ++
      Dialect.clause .explain (Explain.renderOpt d explain) ++
      Dialect.clause .with (With.renderOpt d withClause) ++
      Dialect.clause .top (top.map d.renderTop) ++
      Dialect.clause .using ((Node.renderOptAll d true usingItems).map d.renderUsing) ++
      Dialect.clause .joins ((Join.renderOptAll d joins).map (.separated " ")) ++
      Dialect.clause .where ((Node.renderOpt d true whereClause).map d.renderWhere) ++
      Dialect.clause .returning ((Node.renderOptAll d true returning).map d.renderReturning) ++
      Dialect.clause .output ((Node.renderOptAll d true output).map d.renderOutput) ++
      Dialect.clause .orderBy ((SortItem.renderOptAll d orderBy).map d.renderOrderBy) ++
      Dialect.clause .limit ((Node.renderOpt d true limit).map d.renderLimit) ++
      Dialect.clause .endModifiers
        ((Node.renderOptAll d true endModifiers).map (.separated " ")))
termination_by structural x => x

end

/-! ### Text and parameters -/

/-- SQL text with the values of its placeholders, in their order. -/
structure Compiled where
  sql : String
  parameters : List Value

/-- The text and the parameters of some pieces. -/
def Compiled.ofPieces (d : Dialect) (ps : List Piece) : Compiled :=
  ⟨Piece.write d 1 ps, ps.filterMap Piece.bound?⟩

/-- Compiles a tree. A failure leaves no text behind. -/
def Node.compile (d : Dialect) (n : Node) : Except Error Compiled :=
  (n.render d false).map (Compiled.ofPieces d)

end SqlTree
