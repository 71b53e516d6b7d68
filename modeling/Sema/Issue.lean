import Sema.Diagnostic

/-!
Issues: the mistakes that analysis finds in a program. An analysis goes on after an issue.
-/

namespace Sema

inductive Issue where
  | invalidDirective (name : String)
  | unknownType (name : String)
  | pointerToUnreachable
  | redefinition (name : String)
  /-- A value of one type stands where another is wanted; both are given by name. -/
  | mismatch (expected actual : String)
  | undefinedFunction (name : String)
  | argumentCount (expected actual : Nat)
  | unreachableCode
  /-- The value of a `return` never comes to be. -/
  | unreachableReturn
  | exportOutsideEntry
  | repeatedExport
  | invalidVersion
  | unknownOutputKind (kind : String)
  | missingOutputName
  | missingOutputKind
deriving DecidableEq

def Issue.message : Issue → String
  | .invalidDirective name => "invalid directive: '" ++ name ++ "'"
  | .unknownType name => "invalid type name: '" ++ name ++ "'"
  | .pointerToUnreachable => "pointer to unreachable not allowed"
  | .redefinition name => "redefinition of '" ++ name ++ "'"
  | .mismatch expected actual =>
      "type mismatch: expected '" ++ expected ++ "', got '" ++ actual ++ "'"
  | .undefinedFunction name => "undefined function: '" ++ name ++ "'"
  | .argumentCount expected actual =>
      "wrong number of arguments: expected " ++ Nat.repr expected ++ ", got " ++ Nat.repr actual
  | .unreachableCode => "unreachable code"
  | .unreachableReturn => "returning is unreachable"
  | .exportOutsideEntry => "root export declaration only valid in root source file"
  | .repeatedExport => "only one root export declaration allowed"
  | .invalidVersion => "invalid version string"
  | .unknownOutputKind kind => "invalid export type: '" ++ kind ++ "'"
  | .missingOutputName => "missing export declaration and output name not provided"
  | .missingOutputKind => "missing export declaration and export type not provided"

/-- An issue and the place where it was found. -/
structure Finding where
  file : String
  pos : Position
  issue : Issue
deriving DecidableEq

def Finding.diagnostic (f : Finding) : Diagnostic := ⟨f.file, f.pos, f.issue.message⟩

end Sema
