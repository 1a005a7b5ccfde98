/-! The closed vocabularies of SQL: operators, joins, sort directions and the like, each member
with its name and its spelling in SQL. -/

namespace SqlTree

/-- A finite type with a name for each of its members. -/
class Named (α : Type) where
  all : List α
  name : α → String

/-- The member with a given name; names are case-sensitive. -/
def Named.ofName? {α : Type} [Named α] (s : String) : Option α :=
  (Named.all : List α).find? (fun a => Named.name a == s)

/-- Operators of expressions. The last four take a single operand. -/
inductive Operator where
  | eq | ne | lt | lte | gt | gte | like | notLike | iLike | notILike | isIn | notIn | is | isNot
  | add | sub | mul | div | mod | concat | not | «exists» | notExists | neg
deriving DecidableEq, Repr

namespace Operator

/-- The name of a member. -/
def name : Operator → String
  | .eq => "Eq" | .ne => "Ne" | .lt => "Lt" | .lte => "Lte" | .gt => "Gt" | .gte => "Gte"
  | .like => "Like" | .notLike => "NotLike" | .iLike => "ILike" | .notILike => "NotILike"
  | .isIn => "In" | .notIn => "NotIn" | .is => "Is" | .isNot => "IsNot" | .add => "Add"
  | .sub => "Sub" | .mul => "Mul" | .div => "Div" | .mod => "Mod" | .concat => "Concat"
  | .not => "Not" | .exists => "Exists" | .notExists => "NotExists" | .neg => "Neg"

instance : Named Operator where
  all :=
    [.eq, .ne, .lt, .lte, .gt, .gte, .like, .notLike, .iLike, .notILike, .isIn, .notIn, .is,
     .isNot, .add, .sub, .mul, .div, .mod, .concat, .not, .exists, .notExists, .neg]
  name := name

/-- The spelling shared by all dialects; only the case-insensitive match differs between them. -/
def sql : Operator → String
  | .eq => "=" | .ne => "<>" | .lt => "<" | .lte => "<=" | .gt => ">" | .gte => ">="
  | .like => "LIKE" | .notLike => "NOT LIKE" | .iLike => "ILIKE" | .notILike => "NOT ILIKE"
  | .isIn => "IN" | .notIn => "NOT IN" | .is => "IS" | .isNot => "IS NOT" | .add => "+"
  | .sub => "-" | .mul => "*" | .div => "/" | .mod => "%" | .concat => "||" | .not => "NOT"
  | .exists => "EXISTS" | .notExists => "NOT EXISTS" | .neg => "-"

/-- Operators that take a single operand. -/
def isUnary : Operator → Bool
  | .not | .exists | .notExists | .neg => true
  | _ => false

end Operator

/-- The connective that merges two predicates. -/
inductive Connective where
  | and | or
deriving DecidableEq, Repr

namespace Connective

/-- The name of a member. -/
def name : Connective → String
  | .and => "And" | .or => "Or"

instance : Named Connective where
  all := [.and, .or]
  name := name

end Connective

/-- How a join pairs its rows. -/
inductive JoinType where
  | inner | left | right | full | cross | lateralInner | lateralLeft
deriving DecidableEq, Repr

namespace JoinType

/-- The name of a member. -/
def name : JoinType → String
  | .inner => "Inner" | .left => "Left" | .right => "Right" | .full => "Full" | .cross => "Cross"
  | .lateralInner => "LateralInner" | .lateralLeft => "LateralLeft"

instance : Named JoinType where
  all := [.inner, .left, .right, .full, .cross, .lateralInner, .lateralLeft]
  name := name

/-- The keywords that open the join. -/
def sql : JoinType → String
  | .inner => "INNER JOIN" | .left => "LEFT JOIN" | .right => "RIGHT JOIN" | .full => "FULL JOIN"
  | .cross => "CROSS JOIN" | .lateralInner => "INNER JOIN LATERAL"
  | .lateralLeft => "LEFT JOIN LATERAL"

end JoinType

/-- The direction of a sort. -/
inductive Direction where
  | asc | desc
deriving DecidableEq, Repr

namespace Direction

/-- The name of a member. -/
def name : Direction → String
  | .asc => "Asc" | .desc => "Desc"

instance : Named Direction where
  all := [.asc, .desc]
  name := name

/-- The keyword after the sorted expression. -/
def sql : Direction → String
  | .asc => "ASC" | .desc => "DESC"

end Direction

/-- What trails the count of a TOP. -/
inductive TopModifier where
  | percent | withTies | percentWithTies
deriving DecidableEq, Repr

namespace TopModifier

/-- The name of a member. -/
def name : TopModifier → String
  | .percent => "Percent" | .withTies => "WithTies" | .percentWithTies => "PercentWithTies"

instance : Named TopModifier where
  all := [.percent, .withTies, .percentWithTies]
  name := name

/-- The keywords of the modifier. -/
def sql : TopModifier → String
  | .percent => "PERCENT" | .withTies => "WITH TIES" | .percentWithTies => "PERCENT WITH TIES"

end TopModifier

/-- The output format asked of EXPLAIN. -/
inductive ExplainFormat where
  | text | json | xml | yaml | traditional | tree
deriving DecidableEq, Repr

namespace ExplainFormat

/-- The name of a member. -/
def name : ExplainFormat → String
  | .text => "Text" | .json => "Json" | .xml => "Xml" | .yaml => "Yaml"
  | .traditional => "Traditional" | .tree => "Tree"

instance : Named ExplainFormat where
  all := [.text, .json, .xml, .yaml, .traditional, .tree]
  name := name

/-- The keyword of the format. -/
def sql : ExplainFormat → String
  | .text => "TEXT" | .json => "JSON" | .xml => "XML" | .yaml => "YAML"
  | .traditional => "TRADITIONAL" | .tree => "TREE"

end ExplainFormat

/-- Row locking and the like, written after a statement. -/
inductive StatementModifier where
  | forUpdate | forNoKeyUpdate | forShare | forKeyShare | noWait | skipLocked
deriving DecidableEq, Repr

namespace StatementModifier

/-- The name of a member. -/
def name : StatementModifier → String
  | .forUpdate => "ForUpdate" | .forNoKeyUpdate => "ForNoKeyUpdate" | .forShare => "ForShare"
  | .forKeyShare => "ForKeyShare" | .noWait => "NoWait" | .skipLocked => "SkipLocked"

instance : Named StatementModifier where
  all := [.forUpdate, .forNoKeyUpdate, .forShare, .forKeyShare, .noWait, .skipLocked]
  name := name

/-- The keywords of the modifier. -/
def sql : StatementModifier → String
  | .forUpdate => "FOR UPDATE" | .forNoKeyUpdate => "FOR NO KEY UPDATE"
  | .forShare => "FOR SHARE" | .forKeyShare => "FOR KEY SHARE" | .noWait => "NOWAIT"
  | .skipLocked => "SKIP LOCKED"

end StatementModifier

end SqlTree
