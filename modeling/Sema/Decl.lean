import Sema.Expr

/-!
Top-level declarations and the signatures they carry.
-/

namespace Sema

/-- A directive in front of a declaration: a name and a text, which is empty when none is given. -/
structure Directive where
  node : Node
  name : String
  param : String

/-- From where a function can be called. -/
inductive Visibility where
  /-- Only inside the declaring file. -/
  | fileOnly
  /-- From every file of the program. -/
  | shared
  /-- From outside the produced artifact, by the C calling convention. -/
  | exported
deriving DecidableEq

structure Param where
  node : Node
  name : String
  type : TypeRef

/-- A function signature. -/
structure Prototype where
  node : Node
  name : String
  visibility : Visibility
  params : List Param
  returnType : TypeRef
  directives : List Directive

/-- A function without a body, declared in an external block. -/
structure ExternalFn where
  node : Node
  proto : Prototype

structure FnDef where
  node : Node
  proto : Prototype
  body : Expr

structure ExternalBlock where
  node : Node
  directives : List Directive
  functions : List ExternalFn

/-- The request for an artifact: its kind as written, and its name. -/
structure RootExport where
  node : Node
  kind : String
  name : String
  directives : List Directive

structure UseDecl where
  node : Node
  path : String
  directives : List Directive

inductive Decl where
  | fnDef (d : FnDef)
  | externalBlock (b : ExternalBlock)
  | rootExport (e : RootExport)
  | use (u : UseDecl)

def Decl.node : Decl → Node
  | .fnDef d => d.node
  | .externalBlock b => b.node
  | .rootExport e => e.node
  | .use u => u.node

end Sema
