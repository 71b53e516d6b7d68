import Sema.Node

/-!
Types as a program writes them: a name, or a pointer to another written type.
-/

namespace Sema

/-- Whether a pointer allows writing through it. -/
inductive Mutability where
  | constant
  | mutable
deriving DecidableEq

namespace Mutability

def ofConst : Bool → Mutability
  | true => .constant
  | false => .mutable

def isConst : Mutability → Bool
  | .constant => true
  | .mutable => false

/-- The word that stands after the star of a pointer type. -/
def word : Mutability → String
  | .constant => "const"
  | .mutable => "mut"

@[simp] theorem ofConst_isConst (m : Mutability) : ofConst m.isConst = m := by cases m <;> rfl

@[simp] theorem isConst_ofConst (b : Bool) : (ofConst b).isConst = b := by cases b <;> rfl

end Mutability

/-- A written type. -/
inductive TypeRef where
  | named (node : Node) (name : String)
  | pointer (node : Node) (mutability : Mutability) (child : TypeRef)
deriving DecidableEq

def TypeRef.node : TypeRef → Node
  | .named n _ => n
  | .pointer n _ _ => n

end Sema
