import Sema.AnalysisError
import Sema.TypeTable

/-!
Notes: what analysis learned about single nodes. A node gets at most one note; the attempt to write
a second one is an error and leaves the first in place.
-/

namespace Sema

/-- What is known about one node. -/
inductive Note where
  /-- A written type and the type it stands for. -/
  | typeRef (type : TypeId)
  /-- An expression and its type. -/
  | expr (type : TypeId)
  /-- A function definition: whether its body is left out of the analysis, and the body's type. -/
  | fnDef (skip : Bool) (implicitReturn : Option TypeId)
deriving DecidableEq

/-- The notes of a whole program, the latest first. -/
structure Notes where
  slots : List (NodeId × Note)

namespace Notes

def empty : Notes := ⟨[]⟩

def size (t : Notes) : Nat := t.slots.length

def get? (t : Notes) (n : NodeId) : Option Note := t.slots.lookup n

def contains (t : Notes) (n : NodeId) : Bool := (t.get? n).isSome

/-- Writes the note of a node that has none yet. -/
def record (t : Notes) (n : NodeId) (note : Note) : Except AnalysisError Notes :=
  if t.contains n then .error (.alreadyAnnotated n) else .ok ⟨(n, note) :: t.slots⟩

/-- Writes notes one after the other. -/
def recordAll (t : Notes) : List (NodeId × Note) → Except AnalysisError Notes
  | [] => .ok t
  | (n, note) :: rest => do (← t.record n note).recordAll rest

/-- The type that a written type stands for. -/
def resolvedType? (t : Notes) (n : NodeId) : Option TypeId :=
  match t.get? n with
  | some (.typeRef type) => some type
  | _ => none

/-- The type of an expression. -/
def exprType? (t : Notes) (n : NodeId) : Option TypeId :=
  match t.get? n with
  | some (.expr type) => some type
  | _ => none

/-- Whether a node is a function definition whose body is left out. -/
def isSkipped (t : Notes) (n : NodeId) : Bool :=
  match t.get? n with
  | some (.fnDef skip _) => skip
  | _ => false

/-- All notes by increasing node id. -/
def toSortedList (t : Notes) : List (NodeId × Note) :=
  t.slots.mergeSort fun a b => Nat.ble a.1.value.toNat b.1.value.toNat

@[simp] theorem get?_empty (n : NodeId) : empty.get? n = none := rfl

theorem record_eq_ok {t t' : Notes} {n : NodeId} {note : Note} :
    t.record n note = .ok t' ↔ t.get? n = none ∧ t' = ⟨(n, note) :: t.slots⟩ := by
  unfold record contains
  cases h : t.get? n <;> simp [eq_comm]

end Notes

end Sema
