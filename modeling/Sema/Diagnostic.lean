import Sema.Position

/-!
Diagnostics: messages about places in source files.
-/

namespace Sema

/-- A message about a place. Only the start of the faulty part is known. -/
structure Diagnostic where
  /-- The path of the file. -/
  file : String
  start : Position
  message : String
deriving DecidableEq

/-- The one-line form. -/
def Diagnostic.render (d : Diagnostic) : String :=
  d.file ++ ":" ++ d.start.render ++ ": error: " ++ d.message

/-- The diagnostics of a run, in the order in which they arose. -/
structure Diagnostics where
  toList : List Diagnostic

namespace Diagnostics

def empty : Diagnostics := ⟨[]⟩

def report (ds : Diagnostics) (d : Diagnostic) : Diagnostics := ⟨ds.toList ++ [d]⟩

def size (ds : Diagnostics) : Nat := ds.toList.length

/-- Every diagnostic is an error. -/
def hasErrors (ds : Diagnostics) : Bool := !ds.toList.isEmpty

end Diagnostics

end Sema
