import Sema.Expr
import Sema.TypeTable

/-!
The typing rules of operators. Numbers are `i32` throughout. An operator without a rule is known by
the name of the construct, which is what a refusal names.
-/

namespace Sema

/-- The type an operator wants of each operand, and the type it gives. -/
structure OperatorRule where
  operand : TypeId
  result : TypeId
deriving DecidableEq

/-- Both operands and the result are truth values. -/
def OperatorRule.logical : OperatorRule := ⟨.bool, .bool⟩

/-- Numbers are compared. -/
def OperatorRule.comparison : OperatorRule := ⟨.i32, .bool⟩

/-- Numbers give a number. -/
def OperatorRule.arithmetic : OperatorRule := ⟨.i32, .i32⟩

/-- The rule of a binary operator, or the name of the construct. -/
def BinaryOp.rule : BinaryOp → Except String OperatorRule
  | .boolOr | .boolAnd => .ok .logical
  | .equal | .notEqual | .less | .greater | .lessOrEqual | .greaterOrEqual => .ok .comparison
  | .add | .sub => .ok .arithmetic
  | .bitOr => .error "bitwise or"
  | .bitXor => .error "bitwise xor"
  | .bitAnd => .error "bitwise and"
  | .shiftLeft => .error "shift left"
  | .shiftRight => .error "shift right"
  | .mul => .error "multiplication"
  | .div => .error "division"
  | .mod => .error "modulo"

/-- The rule of a unary operator, or the name of the construct. -/
def UnaryOp.rule : UnaryOp → Except String OperatorRule
  | .not => .ok .logical
  | .bitNot => .error "bitwise not"
  | .negate => .error "negation"

end Sema
