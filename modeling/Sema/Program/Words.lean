import Sema.Decl

/-!
The words that the JSON form of a program uses for operators and visibilities, and the tags that
tell apart the kinds of a declaration, of a written type and of an expression.
-/

namespace Sema

namespace BinaryOp

def word : BinaryOp → String
  | .boolOr => "bool_or"
  | .boolAnd => "bool_and"
  | .equal => "cmp_eq"
  | .notEqual => "cmp_not_eq"
  | .less => "cmp_less_than"
  | .greater => "cmp_greater_than"
  | .lessOrEqual => "cmp_less_or_eq"
  | .greaterOrEqual => "cmp_greater_or_eq"
  | .bitOr => "bin_or"
  | .bitXor => "bin_xor"
  | .bitAnd => "bin_and"
  | .shiftLeft => "bit_shift_left"
  | .shiftRight => "bit_shift_right"
  | .add => "add"
  | .sub => "sub"
  | .mul => "mult"
  | .div => "div"
  | .mod => "mod"

def all : List BinaryOp :=
  [.boolOr, .boolAnd, .equal, .notEqual, .less, .greater, .lessOrEqual, .greaterOrEqual, .bitOr,
    .bitXor, .bitAnd, .shiftLeft, .shiftRight, .add, .sub, .mul, .div, .mod]

def ofWord? (w : String) : Option BinaryOp := all.find? (·.word = w)

theorem ofWord?_word (op : BinaryOp) : ofWord? op.word = some op := by cases op <;> decide

end BinaryOp

namespace UnaryOp

def word : UnaryOp → String
  | .not => "bool_not"
  | .bitNot => "bin_not"
  | .negate => "negation"

def all : List UnaryOp := [.not, .bitNot, .negate]

def ofWord? (w : String) : Option UnaryOp := all.find? (·.word = w)

theorem ofWord?_word (op : UnaryOp) : ofWord? op.word = some op := by cases op <;> decide

end UnaryOp

namespace Visibility

def word : Visibility → String
  | .fileOnly => "private"
  | .shared => "pub"
  | .exported => "export"

def all : List Visibility := [.fileOnly, .shared, .exported]

def ofWord? (w : String) : Option Visibility := all.find? (·.word = w)

theorem ofWord?_word (v : Visibility) : ofWord? v.word = some v := by cases v <;> decide

end Visibility

/-- The tags of declarations. -/
def Decl.tags : List String := ["fn_def", "extern_block", "root_export", "use"]

/-- The tags of written types. -/
def TypeRef.tags : List String := ["primitive", "pointer"]

/-- The tags of expressions. -/
def Expr.tags : List String :=
  ["block", "return", "binary", "call", "number_literal", "string_literal", "unreachable", "void",
    "symbol", "cast", "prefix", "if"]

end Sema
