import SqlTree.Node

/-! Which operands of an operator stand in parentheses. -/

namespace SqlTree

/-- The position of an operand. -/
inductive OperandPosition where
  /-- Beside AND, which binds tighter than OR. -/
  | conjunction
  /-- Beside a binary operator. -/
  | binary
  /-- After NOT or EXISTS. -/
  | prefixed
  /-- After a unary minus. A second minus would start a comment. -/
  | negated
deriving DecidableEq, Repr

namespace OperandPosition

/-- Operands that cannot begin with a minus and bind tightest. -/
def isAtom : Node → Bool
  | .column _ | .reference .. | .function .. | .parens _ | .valueList _ | .select _ => true
  | .value _ immediate => !immediate
  | _ => false

/-- Whether an operand stands in parentheses. -/
def parenthesizes : OperandPosition → Node → Bool
  | _, .or .. => true
  | .conjunction, _ => false
  | _, .and .. => true
  | .prefixed, _ => false
  | _, .binary .. => true
  | .binary, .unary op _ => op == .not
  | .binary, _ => false
  | .negated, n => !isAtom n

theorem parenthesizes_negated (n : Node) : negated.parenthesizes n = !isAtom n := by
  cases n <;> rfl

end OperandPosition

end SqlTree
