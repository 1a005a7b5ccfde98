import SqlTree.Proofs.Emission.Walk
import SqlTree.Sql.Compile

/-! # The layout of a node

What one rule writes, with the parts of the node left as they are: a table with a row for each
kind. The renderer is the recursion of this table over the parts (`Node.render_eq`), so a property
of rendering is a property of each row that the recursion keeps. -/

namespace SqlTree

/-- What a rule writes: a piece, a part of the node, or a refusal. -/
inductive Item where
  | piece (p : Piece)
  | part (n : Node)
  | refuse (e : Error)

/-- The items of a node, or those of each clause of a statement. -/
inductive Layout where
  | items (is : List Item)
  | clauses (cs : List (Clause × List Item))

/-! ## Rows of the table -/

namespace Item

/-- A fixed text. -/
def text (s : String) : Item := .piece (.text s)

/-- Parts with a text between each two. -/
def separated (separator : String) (ns : List Node) : List Item :=
  (ns.map part).intersperse (text separator)

/-- A keyword and parts with commas. -/
def listed (keyword : String) (ns : List Node) : List Item := text keyword :: separated ", " ns

/-- A part, in parentheses if asked for. -/
def grouped (wanted : Bool) (n : Node) : List Item :=
  if wanted then [text "(", part n, text ")"] else [part n]

/-- Parts with commas in parentheses. -/
def tuple (ns : List Node) : List Item := text "(" :: separated ", " ns ++ [text ")"]

/-- Fragments with a part after each, as long as there are both. -/
def interleaved : List String → List Node → List Item
  | [], _ => []
  | f :: fs, [] => text f :: interleaved fs []
  | f :: fs, n :: ns => text f :: part n :: interleaved fs ns

end Item

namespace Layout

/-- A clause that may be missing. -/
def clause (c : Clause) (is : Option (List Item)) : List (Clause × List Item) :=
  is.toList.map (c, ·)

/-- A clause that is a single part. -/
def single (c : Clause) (n : Option Node) : List (Clause × List Item) :=
  clause c (n.map fun n => [.part n])

/-- A statement from its clauses, in the order of the dialect. A clause without a place in that
order is refused. -/
def statement (d : Dialect) (k : StatementKind) (cs : List (Clause × List Item)) : Layout :=
  match cs.find? fun c => !(d.clauseOrder k).contains c.1 with
  | some c => .items [.refuse (.unsupported c.1.name d.name)]
  | none => .clauses ((d.clauseOrder k).map fun c => (c, (cs.lookup c).getD []))

end Layout

open Item Layout

/-- The clauses of a SELECT. -/
def Select.layout (q : Select Node) : List (Clause × List Item) :=
  [(.keyword, [text (if q.distinct then "SELECT DISTINCT" else "SELECT")]),
   (.selections, match q.selections with
    | none | some [] => [text "*"]
    | some ns => separated ", " (ns.map .selection))] ++
  single .explain (q.explain.map .explain) ++ single .with (q.withClause.map .with) ++
  single .top (q.top.map .top) ++ single .from (q.fromItems.map .from) ++
  clause .joins (q.joins.map fun js => separated " " (js.map .join)) ++
  single .where (q.whereClause.map .where) ++ single .groupBy (q.groupBy.map .groupBy) ++
  single .having (q.having.map .having) ++ single .orderBy (q.orderBy.map .orderBy) ++
  single .limit (q.limit.map .limit) ++ single .offset (q.offset.map .offset) ++
  clause .endModifiers (q.endModifiers.map (separated " "))

/-- The clauses of an INSERT behind its keyword. -/
def Insert.layout (q : Insert Node) (keyword : String) : List (Clause × List Item) :=
  [(.keyword, [text keyword]), (.into, [text "INTO ", .part (.table q.into)]),
   (.values, match q.source with
    | some n => [.part n]
    | none => [text "DEFAULT VALUES"])] ++
  single .explain (q.explain.map .explain) ++ single .with (q.withClause.map .with) ++
  single .top (q.top.map .top) ++
  clause .columns (q.columns.map fun cs => if cs.isEmpty then [] else tuple (cs.map .column)) ++
  single .onConflict (q.onConflict.map .onConflict) ++
  single .returning (q.returning.map .returning) ++ single .output (q.output.map .output) ++
  clause .endModifiers (q.endModifiers.map (separated " "))

/-- The clauses of an UPDATE with the given assignments. -/
def Update.layout (q : Update Node) (as : List (Assignment Node)) : List (Clause × List Item) :=
  [(.keyword, [text "UPDATE"]), (.table, [.part q.table]),
   (.set, listed "SET " (as.map .assignment))] ++
  single .explain (q.explain.map .explain) ++ single .with (q.withClause.map .with) ++
  single .top (q.top.map .top) ++ single .from (q.fromItems.map .from) ++
  clause .joins (q.joins.map fun js => separated " " (js.map .join)) ++
  single .where (q.whereClause.map .where) ++ single .returning (q.returning.map .returning) ++
  single .output (q.output.map .output) ++ single .orderBy (q.orderBy.map .orderBy) ++
  single .limit (q.limit.map .limit) ++
  clause .endModifiers (q.endModifiers.map (separated " "))

/-- The clauses of a DELETE. -/
def Delete.layout (q : Delete Node) : List (Clause × List Item) :=
  [(.keyword, [text "DELETE"]), (.from, [.part (.from q.fromItems)])] ++
  single .explain (q.explain.map .explain) ++ single .with (q.withClause.map .with) ++
  single .top (q.top.map .top) ++ single .using (q.usingItems.map .using) ++
  clause .joins (q.joins.map fun js => separated " " (js.map .join)) ++
  single .where (q.whereClause.map .where) ++ single .returning (q.returning.map .returning) ++
  single .output (q.output.map .output) ++ single .orderBy (q.orderBy.map .orderBy) ++
  single .limit (q.limit.map .limit) ++
  clause .endModifiers (q.endModifiers.map (separated " "))

/-- EXPLAIN, whose options need a syntax in the dialect. -/
def Explain.layout (d : Dialect) (e : Explain Node) : List Item :=
  if e.format.isNone && e.options.isNone then [text "EXPLAIN"]
  else
    match d.explainSyntax with
    | none => [.refuse (.unsupported "EXPLAIN options" d.name)]
    | some x =>
      text ("EXPLAIN " ++ x.opening) :: e.options.toList.map .part ++
        e.format.toList.map (fun f => text
          ((if e.options.isSome then x.delimiter else "") ++ "FORMAT" ++ x.assignment ++ f.sql)) ++
        [text x.closing]

/-- What an INSERT does about a conflicting row. -/
def OnConflict.layout (c : OnConflict Node) : List Item :=
  text "ON CONFLICT" ::
    ((c.columns.map fun cs => text " " :: tuple (cs.map .column)).getD [] ++
     (c.constraint.map fun i => [text " ON CONSTRAINT ", .part (.identifier i)]).getD [] ++
     if c.doNothing then [text " DO NOTHING"]
     else
      match c.updates with
      | none | some [] => [.refuse (.invalid .onConflict .noConflictAction)]
      | some us =>
        listed " DO UPDATE SET " (us.map .assignment) ++
          (c.updateWhere.map fun p => [text " ", .part (.where p)]).getD [])

/-- The layout of a node under a dialect. -/
def Node.layout (d : Dialect) : Node → Layout
  | .identifier i => .items [.piece (.name i.name)]
  | .table t => .items
    ((t.schema.map fun s => [.part (.identifier s), text "."]).getD [] ++
      [.part (.identifier t.table)])
  | .column c => .items [.part (.identifier c.column)]
  | .reference t c => .items
    ((t.map fun t => [.part (.table t), text "."]).getD [] ++ [.part c])
  | .selectAll => .items [text "*"]
  | .alias n i => .items [.part n, text " AS ", .part (.identifier i)]
  | .value v immediate => .items [.piece (if immediate then .literal v else .bound v)]
  | .valueList ns => .items (tuple ns)
  | .raw fragments ns => .items (interleaved fragments ns)
  | .operator op => .items [text (d.operator op)]
  | .binary l op r => .items
    (grouped (OperandPosition.binary.parenthesizes l) l ++
      text " " :: .part (.operator op) :: text " " ::
      grouped (OperandPosition.binary.parenthesizes r) r)
  | .unary op n => .items <| .part (.operator op) ::
    if op = .neg then grouped (OperandPosition.negated.parenthesizes n) n
    else text " " :: grouped (OperandPosition.prefixed.parenthesizes n) n
  | .and l r => .items
    (grouped (OperandPosition.conjunction.parenthesizes l) l ++ text " AND " ::
      grouped (OperandPosition.conjunction.parenthesizes r) r)
  | .or l r => .items [.part l, text " OR ", .part r]
  | .parens n => .items (grouped true n)
  | .function name ns => .items (text name :: tuple ns)
  | .from ns => .items (listed "FROM " ns)
  | .using ns => .items (listed "USING " ns)
  | .join j => .items (text (j.type.sql ++ " ") :: .part j.table ::
    (j.condition.map fun n => [text " ", .part (.on n)]).getD [])
  | .on n => .items (listed "ON " [n])
  | .where n => .items (listed "WHERE " [n])
  | .selection n => .items [.part n]
  | .returning ns => .items (listed "RETURNING " (ns.map .selection))
  | .output ns => .items (listed "OUTPUT " ns)
  | .orderBy is => .items (listed "ORDER BY " (is.map .orderByItem))
  | .orderByItem i => .items (.part i.expr :: i.direction.toList.map fun x => text (" " ++ x.sql))
  | .groupBy ns => .items (listed "GROUP BY " ns)
  | .having n => .items (listed "HAVING " [n])
  | .limit n => .items (listed "LIMIT " [n])
  | .offset n => .items [text "OFFSET ", .part n, text d.offsetSuffix]
  | .top t => .items (text ("TOP(" ++ toString t.count.toNat ++ ")") ::
    t.modifier.toList.map fun m => text (" " ++ m.sql))
  | .explain e => .items (e.layout d)
  | .with w => .items
    (listed (if w.isRecursive then "WITH RECURSIVE " else "WITH ") (w.ctes.map .cte))
  | .cte c => .items
    [.part (.cteName c.name), text (" AS " ++ Dialect.materializedText c.materialized),
     .part c.body]
  | .cteName n => .items (.part (.identifier n.table) ::
    (n.columns.map fun cs => tuple (cs.map .column)).getD [])
  | .assignment a => .items [.part (.column a.column), text " = ", .part a.value]
  | .values rows => .items (listed "VALUES " (rows.map .valueList))
  | .onConflict c => .items c.layout
  | .modifier m => .items [text m.sql]
  | .select q => .statement d .select q.layout
  | .insert q =>
    if q.source.isNone && !q.defaultValues then
      .items [.refuse (.invalid .insertQuery .noRowSource)]
    else
      match if q.ignore then d.insertIgnore else some "INSERT" with
      | none => .items [.refuse (.unsupported "INSERT IGNORE" d.name)]
      | some keyword => .statement d .insert (q.layout keyword)
  | .update q =>
    match q.assignments with
    | none | some [] => .items [.refuse (.invalid .updateQuery .noAssignment)]
    | some as => .statement d .update (q.layout as)
  | .delete q => .statement d .delete q.layout

/-! ## Rendering a layout -/

/-- Whether a statement directly below a node of this kind stands in parentheses. -/
def Kind.delimits : Kind → Bool
  | .parens | .insertQuery => false
  | _ => true

/-- The pieces of an item. -/
def Item.render (d : Dialect) (nested : Bool) : Item → Rendering
  | .piece p => .ok [p]
  | .part n => n.render d nested
  | .refuse e => .error e

/-- The pieces of items one after another. -/
def Item.renderAll (d : Dialect) (nested : Bool) (is : List Item) : Rendering :=
  .seq (is.map (Item.render d nested))

/-- The pieces of a layout. -/
def Layout.render (d : Dialect) (nested : Bool) : Layout → Rendering
  | .items is => Item.renderAll d nested is
  | .clauses cs => do
    return Dialect.spaced (← cs.mapM fun c => Item.renderAll d nested c.2)

end SqlTree
