import Sema.Decl

/-!
Functions as they are known from their signatures. A function is handled by its index in the list of
all functions of a program.
-/

namespace Sema

/-- A handle to a function of the analysed program. -/
structure FunctionId where
  index : Nat
deriving DecidableEq

inductive CallingConvention where
  /-- The platform's C convention, used across the border of the artifact. -/
  | c
  /-- Any convention, for calls that stay inside the artifact. -/
  | fast
deriving DecidableEq

def CallingConvention.word : CallingConvention → String
  | .c => "c"
  | .fast => "fast"

inductive Linkage where
  | inside
  | outside
deriving DecidableEq

def Linkage.word : Linkage → String
  | .inside => "internal"
  | .outside => "external"

/-- A callable function. -/
structure Function where
  name : String
  /-- The declaring signature; the notes on its type nodes hold the types they stand for. -/
  proto : Prototype
  /-- The defining node, unless the function is defined elsewhere. -/
  definition : Option NodeId
  linkage : Linkage
  convention : CallingConvention
  /-- The index of the declaring file. -/
  file : Nat

namespace Function

/-- A function without a body, bound in from outside. -/
def declared (proto : Prototype) (file : Nat) : Function where
  name := proto.name
  proto := proto
  definition := none
  linkage := .outside
  convention := .c
  file := file

/-- A function with a body. Only an exported one leaves the artifact. -/
def defined (proto : Prototype) (definition : NodeId) (file : Nat) : Function where
  name := proto.name
  proto := proto
  definition := some definition
  linkage := if proto.visibility = .exported then .outside else .inside
  convention := if proto.visibility = .exported then .c else .fast
  file := file

/-- Whether the function is defined outside of the program. -/
def isDeclaredOnly (f : Function) : Bool := f.definition.isNone

end Function

end Sema
