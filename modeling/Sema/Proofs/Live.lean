import Sema.Expr
import Sema.TypeTable

/-!
The parts of an expression, and those of them that are live: the name that is called is not, and
neither is what follows a statement that never completes. Parts come in the order of checking, an
expression after its own parts.
-/

namespace Sema

namespace Expr

mutual

/-- All parts of an expression. -/
def parts : Expr → List Expr
  | .block n l => partsAll l ++ [.block n l]
  | .ret n v => partsOptional v ++ [.ret n v]
  | .binary n op l r => l.parts ++ r.parts ++ [.binary n op l r]
  | .call n c args => c.parts ++ partsAll args ++ [.call n c args]
  | .cast n e t => e.parts ++ [.cast n e t]
  | .unary n op e => e.parts ++ [.unary n op e]
  | .cond n c t e => c.parts ++ partsOptional e ++ t.parts ++ [.cond n c t e]
  | .number n t => [.number n t]
  | .string n t => [.string n t]
  | .unreachable n => [.unreachable n]
  | .void n => [.void n]
  | .symbol n s => [.symbol n s]

def partsAll : List Expr → List Expr
  | [] => []
  | e :: rest => e.parts ++ partsAll rest

def partsOptional : Option Expr → List Expr
  | none => []
  | some e => e.parts

end

theorem mem_parts_self (e : Expr) : e ∈ e.parts := by
  cases e <;> simp [parts]

variable (dead : Expr → Bool)

mutual

/-- The live parts of an expression, when `dead` tells which statements never complete. -/
def live : Expr → List Expr
  | .block n l => liveBlock l ++ [.block n l]
  | .ret n v => liveOptional v ++ [.ret n v]
  | .binary n op l r => live l ++ live r ++ [.binary n op l r]
  | .call n (.symbol m s) args => liveAll args ++ [.call n (.symbol m s) args]
  | .call n c args => live c ++ liveAll args ++ [.call n c args]
  | .cast n e t => live e ++ [.cast n e t]
  | .unary n op e => live e ++ [.unary n op e]
  | .cond n c t e => live c ++ liveOptional e ++ live t ++ [.cond n c t e]
  | .number n t => [.number n t]
  | .string n t => [.string n t]
  | .unreachable n => [.unreachable n]
  | .void n => [.void n]
  | .symbol n s => [.symbol n s]

def liveBlock : List Expr → List Expr
  | [] => []
  | e :: rest => live e ++ if dead e then [] else liveBlock rest

def liveAll : List Expr → List Expr
  | [] => []
  | e :: rest => live e ++ liveAll rest

def liveOptional : Option Expr → List Expr
  | none => []
  | some e => live e

end

/-- Whether an expression never completes, by the types that are told. -/
def diverges (type? : NodeId → Option TypeId) (e : Expr) : Bool := type? e.id = some .unreachable

end Expr

end Sema
