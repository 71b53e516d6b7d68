import Sema.Decl

/-!
Types by their structure. A written type stands for such a type without any table: the ids and the
places of its nodes do not matter, and an unknown name stands for the invalid type.
-/

namespace Sema

/-- A type as a tree. -/
inductive Ty where
  | void
  | bool
  | i32
  | u8
  | unreachable
  /-- Stands for a name that is no type. -/
  | invalid
  | pointer (mutability : Mutability) (pointee : Ty)
deriving DecidableEq

/-- The type a name stands for. -/
def Ty.ofName (name : String) : Ty :=
  if name = "void" then .void
  else if name = "bool" then .bool
  else if name = "i32" then .i32
  else if name = "u8" then .u8
  else if name = "unreachable" then .unreachable
  else .invalid

/-- A name is known exactly when it does not stand for the invalid type. -/
theorem Ty.ofName_ne_invalid_iff {name : String} :
    Ty.ofName name ≠ .invalid ↔ name ∈ ["void", "bool", "i32", "u8", "unreachable"] := by
  unfold Ty.ofName
  repeat' split
  all_goals simp_all

theorem Ty.ofName_eq_unreachable_iff {name : String} :
    Ty.ofName name = .unreachable ↔ name = "unreachable" := by
  unfold Ty.ofName
  repeat' split
  all_goals simp_all

/-- The type of string literals. -/
abbrev Ty.stringLiteral : Ty := .pointer .constant .u8

namespace TypeRef

/-- The type a written type stands for. -/
def ty : TypeRef → Ty
  | .named _ name => .ofName name
  | .pointer _ m child => .pointer m child.ty

/-- A written type and all that it points to, the innermost first. -/
def parts : TypeRef → List TypeRef
  | t@(.named _ _) => [t]
  | t@(.pointer _ _ child) => child.parts ++ [t]

/-- Whether the name in a written type does not start with a star, as the names of pointers do. -/
def IsPlain : TypeRef → Prop
  | .named _ name => name.toList.head? ≠ some '*'
  | .pointer _ _ child => child.IsPlain

instance decidableIsPlain : (t : TypeRef) → Decidable t.IsPlain
  | .named _ name => inferInstanceAs (Decidable (name.toList.head? ≠ some '*'))
  | .pointer _ _ child => child.decidableIsPlain

/-- Whether a written type is accepted: its name is known and no pointer leads to `unreachable`. -/
def IsProper : TypeRef → Prop
  | .named _ name => name ∈ ["void", "bool", "i32", "u8", "unreachable"]
  | .pointer _ _ child => child.IsProper ∧ child.ty ≠ .unreachable

theorem mem_parts_self (t : TypeRef) : t ∈ t.parts := by
  cases t <;> simp [parts]

end TypeRef

/-- The written types of a signature, parameters first. -/
def Prototype.types (p : Prototype) : List TypeRef := p.params.map (·.type) ++ [p.returnType]

theorem Prototype.returnType_mem_types (p : Prototype) : p.returnType ∈ p.types := by
  simp [types]

theorem Prototype.type_mem_types {p : Prototype} {q : Param} (h : q ∈ p.params) :
    q.type ∈ p.types :=
  List.mem_append_left _ (List.mem_map_of_mem h)

end Sema
