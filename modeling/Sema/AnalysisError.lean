import Sema.Node

/-!
Causes that end an analysis without a result. They are no mistakes of the program's author: the tree
uses something that has no typing rule yet, or it is no proper tree.
-/

namespace Sema

inductive AnalysisError where
  /-- The construct at this place has no typing rule. -/
  | unsupported (construct : String) (file : String) (pos : Position)
  /-- A node was to be given a second note. -/
  | alreadyAnnotated (node : NodeId)
  /-- A node lacks the note that was wanted of it. -/
  | missingNote (node : NodeId) (expected : String)
  /-- A handle points outside its table. -/
  | outOfRange (index : Nat)
deriving DecidableEq

namespace AnalysisError

def message : AnalysisError → String
  | .unsupported construct file pos =>
      file ++ ":" ++ pos.render ++ ": " ++ construct ++ " is not supported yet"
  | .alreadyAnnotated node => "node " ++ node.render ++ " was annotated twice"
  | .missingNote node expected =>
      "node " ++ node.render ++ " is missing its " ++ expected ++ " annotation"
  | .outOfRange index => "handle " ++ Nat.repr index ++ " is out of range"

def isUnsupported : AnalysisError → Bool
  | .unsupported .. => true
  | _ => false

end AnalysisError

end Sema
