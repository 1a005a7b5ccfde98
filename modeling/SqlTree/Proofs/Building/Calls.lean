import SqlTree.Statement

/-! # Calls that change a statement

Every change of a statement as data, with the nodes it is given and the statement it makes. Changes
that several statements share are written once. -/

namespace SqlTree

/-- Changes of the clauses that all statements have. -/
inductive CommonCall where
  | addWith (w : With Node)
  | clearWith
  | putTop (t : Top)
  | clearTop
  | putExplain (x : Explain Node)
  | clearExplain
  | addEndModifier (n : Node)
  | clearEndModifiers

/-- Changes of the clauses that choose rows, which all statements but INSERT have. -/
inductive RowCall where
  | addWhere (p : Node)
  | orWhere (p : Node)
  | clearWhere
  | addJoin (j : Join Node)
  | clearJoins
  | addOrderBy (is : List (SortItem Node))
  | clearOrderBy
  | putLimit (count : Node)
  | clearLimit

/-- Changes of the clauses that report the rows that were changed. -/
inductive ReportCall where
  | addReturning (ns : List Node)
  | clearReturning
  | addOutput (ns : List Node)
  | clearOutput

/-- Changes of a SELECT. -/
inductive Select.Call where
  | common (c : CommonCall)
  | row (c : RowCall)
  | addFrom (ns : List Node)
  | addSelections (ns : List Node)
  | clearSelections
  | setDistinct (distinct : Bool)
  | addGroupBy (ns : List Node)
  | clearGroupBy
  | addHaving (p : Node)
  | putOffset (count : Node)
  | clearOffset

/-- Changes of an INSERT. The source of its rows is a VALUES clause or any other node. -/
inductive Insert.Call where
  | common (c : CommonCall)
  | report (c : ReportCall)
  | addColumns (cs : List Column)
  | setSource (source : Node)
  | setDefaults
  | putOnConflict (c : OnConflict Node)
  | setIgnore (ignore : Bool)

/-- Changes of an UPDATE. -/
inductive Update.Call where
  | common (c : CommonCall)
  | row (c : RowCall)
  | report (c : ReportCall)
  | addFrom (ns : List Node)
  | addAssignments (as : List (Assignment Node))

/-- Changes of a DELETE. -/
inductive Delete.Call where
  | common (c : CommonCall)
  | row (c : RowCall)
  | report (c : ReportCall)
  | addUsing (ns : List Node)

/-! ## What a call is given -/

/-- The nodes that a change is given. -/
def CommonCall.arguments : CommonCall → List Node
  | .addWith w => [.with w]
  | .putTop t => [.top t]
  | .putExplain x => [.explain x]
  | .addEndModifier n => [n]
  | _ => []

def RowCall.arguments : RowCall → List Node
  | .addWhere p | .orWhere p => [p]
  | .addJoin j => [.join j]
  | .addOrderBy is => is.map .orderByItem
  | .putLimit n => [.limit n]
  | _ => []

def ReportCall.arguments : ReportCall → List Node
  | .addReturning ns => ns.map .selection
  | .addOutput ns => ns
  | _ => []

def Select.Call.arguments : Select.Call → List Node
  | .common c => c.arguments
  | .row c => c.arguments
  | .addFrom ns | .addGroupBy ns => ns
  | .addSelections ns => ns.map .selection
  | .addHaving p => [p]
  | .putOffset n => [.offset n]
  | _ => []

def Insert.Call.arguments : Insert.Call → List Node
  | .common c => c.arguments
  | .report c => c.arguments
  | .addColumns cs => cs.map .column
  | .setSource n => [n]
  | .putOnConflict c => [.onConflict c]
  | _ => []

def Update.Call.arguments : Update.Call → List Node
  | .common c => c.arguments
  | .row c => c.arguments
  | .report c => c.arguments
  | .addFrom ns => ns
  | .addAssignments as => as.map .assignment

def Delete.Call.arguments : Delete.Call → List Node
  | .common c => c.arguments
  | .row c => c.arguments
  | .report c => c.arguments
  | .addUsing ns => ns

/-! ## What a call makes -/

/-- The changed statement. -/
def CommonCall.run {σ : Type} [HasSlot .with σ (With Node)] [HasSlot .top σ Top]
    [HasSlot .explain σ (Explain Node)] [HasSlot .endModifiers σ (List Node)] :
    CommonCall → σ → σ
  | .addWith w => Statement.addWith w
  | .clearWith => Statement.clear .with
  | .putTop t => Statement.put .top t
  | .clearTop => Statement.clear .top
  | .putExplain x => Statement.put .explain x
  | .clearExplain => Statement.clear .explain
  | .addEndModifier n => Statement.addEndModifier n
  | .clearEndModifiers => Statement.clear .endModifiers

def RowCall.run {σ : Type} [HasSlot .where σ Node] [HasSlot .joins σ (List (Join Node))]
    [HasSlot .orderBy σ (List (SortItem Node))] [HasSlot .limit σ Node] (q : σ) :
    RowCall → Except Error σ
  | .addWhere p => .ok (Statement.addWhere p q)
  | .orWhere p => .ok (Statement.orWhere p q)
  | .clearWhere => .ok (Statement.clear .where q)
  | .addJoin j => .ok (Statement.addJoin j q)
  | .clearJoins => .ok (Statement.clear .joins q)
  | .addOrderBy is => Statement.addOrderBy is q
  | .clearOrderBy => .ok (Statement.clear .orderBy q)
  | .putLimit n => .ok (Statement.put .limit n q)
  | .clearLimit => .ok (Statement.clear .limit q)

def ReportCall.run {σ : Type} [HasSlot .returning σ (List Node)] [HasSlot .output σ (List Node)]
    (q : σ) : ReportCall → Except Error σ
  | .addReturning ns => Statement.addReturning ns q
  | .clearReturning => .ok (Statement.clear .returning q)
  | .addOutput ns => Statement.addOutput ns q
  | .clearOutput => .ok (Statement.clear .output q)

def Select.Call.run (q : Select Node) : Select.Call → Except Error (Select Node)
  | .common c => .ok (c.run q)
  | .row c => c.run q
  | .addFrom ns => Statement.addFrom ns q
  | .addSelections ns => .ok (Statement.append .selections ns q)
  | .clearSelections => .ok (Statement.clear .selections q)
  | .setDistinct b => .ok { q with distinct := b }
  | .addGroupBy ns => Statement.addGroupBy ns q
  | .clearGroupBy => .ok (Statement.clear .groupBy q)
  | .addHaving p => .ok (Statement.merge .having .and p q)
  | .putOffset n => .ok (Statement.put .offset n q)
  | .clearOffset => .ok (Statement.clear .offset q)

def Insert.Call.run (q : Insert Node) : Insert.Call → Except Error (Insert Node)
  | .common c => .ok (c.run q)
  | .report c => c.run q
  | .addColumns cs => .ok (Statement.append .columns cs q)
  | .setSource n => .ok (q.withSource n)
  | .setDefaults => .ok q.withDefaults
  | .putOnConflict c => .ok (Statement.put .onConflict c q)
  | .setIgnore b => .ok { q with ignore := b }

def Update.Call.run (q : Update Node) : Update.Call → Except Error (Update Node)
  | .common c => .ok (c.run q)
  | .row c => c.run q
  | .report c => c.run q
  | .addFrom ns => Statement.addFrom ns q
  | .addAssignments as => .ok (Statement.append .set as q)

def Delete.Call.run (q : Delete Node) : Delete.Call → Except Error (Delete Node)
  | .common c => .ok (c.run q)
  | .row c => c.run q
  | .report c => c.run q
  | .addUsing ns => Statement.addUsing ns q

end SqlTree
