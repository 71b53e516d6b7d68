import Sema.TypeRef

/-!
Expressions, which are also the statements of a block.
-/

namespace Sema

inductive BinaryOp where
  | boolOr
  | boolAnd
  | equal
  | notEqual
  | less
  | greater
  | lessOrEqual
  | greaterOrEqual
  | bitOr
  | bitXor
  | bitAnd
  | shiftLeft
  | shiftRight
  | add
  | sub
  | mul
  | div
  | mod
deriving DecidableEq

inductive UnaryOp where
  | not
  | bitNot
  | negate
deriving DecidableEq

/-- An expression. Number literals keep the text they were written with. -/
inductive Expr where
  | block (node : Node) (statements : List Expr)
  | ret (node : Node) (value : Option Expr)
  | binary (node : Node) (op : BinaryOp) (left right : Expr)
  | call (node : Node) (callee : Expr) (args : List Expr)
  | number (node : Node) (text : String)
  | string (node : Node) (text : String)
  | unreachable (node : Node)
  | void (node : Node)
  | symbol (node : Node) (name : String)
  | cast (node : Node) (operand : Expr) (target : TypeRef)
  | unary (node : Node) (op : UnaryOp) (operand : Expr)
  | cond (node : Node) (condition thenBranch : Expr) (elseBranch : Option Expr)

namespace Expr

def node : Expr → Node
  | .block n _ => n
  | .ret n _ => n
  | .binary n _ _ _ => n
  | .call n _ _ => n
  | .number n _ => n
  | .string n _ => n
  | .unreachable n => n
  | .void n => n
  | .symbol n _ => n
  | .cast n _ _ => n
  | .unary n _ _ => n
  | .cond n _ _ _ => n

def id (e : Expr) : NodeId := e.node.id

def pos (e : Expr) : Position := e.node.pos

/-- Gives an expression another identity; its parts keep theirs. -/
def withId (i : NodeId) : Expr → Expr
  | .block n b => .block { n with id := i } b
  | .ret n v => .ret { n with id := i } v
  | .binary n o l r => .binary { n with id := i } o l r
  | .call n c a => .call { n with id := i } c a
  | .number n t => .number { n with id := i } t
  | .string n t => .string { n with id := i } t
  | .unreachable n => .unreachable { n with id := i }
  | .void n => .void { n with id := i }
  | .symbol n s => .symbol { n with id := i } s
  | .cast n e t => .cast { n with id := i } e t
  | .unary n o e => .unary { n with id := i } o e
  | .cond n c t e => .cond { n with id := i } c t e

/-- Whether an expression is the `void` marker, which may stand anywhere as padding. -/
def isVoid : Expr → Bool
  | .void _ => true
  | _ => false

@[simp] theorem node_withId (i : NodeId) (e : Expr) :
    (e.withId i).node = { e.node with id := i } := by
  cases e <;> rfl

end Expr

end Sema
