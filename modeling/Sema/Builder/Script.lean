import Sema.Builder

/-!
Scripts: sequences of building steps. Finished parts wait on stacks, one for each kind of part, and
a step takes the parts it needs from the top, so that no part is used twice.
-/

namespace Sema

/-- What a step may give another id. -/
inductive Piece where
  | type
  | expr
  | proto
  | decl
deriving DecidableEq

/-- A step of a script. Counts say how many parts are taken from a stack, in the order in which they
were put there. -/
inductive Step where
  | moveTo (line column : UInt32)
  | namedType (name : String)
  | pointerType (mutability : Mutability)
  | param (name : String)
  | directive (name param : String)
  /-- Takes the returned type, then the parameters. -/
  | prototype (name : String) (visibility : Visibility) (params : Nat)
  /-- Adds directives to the signature on top. -/
  | prototypeDirectives (count : Nat)
  | fnDef
  | externalBlock (directives protos : Nat)
  | rootExport (kind name : String) (directives : Nat)
  | useDecl (path : String) (directives : Nat)
  | block (statements : Nat)
  | ret (hasValue : Bool)
  /-- Takes the right operand, then the left one. -/
  | binary (op : BinaryOp)
  | call (name : String) (args : Nat)
  /-- Takes the arguments, then what is called. -/
  | callExpr (args : Nat)
  | number (value : UInt64)
  | string (text : String)
  | unreachable
  | void
  | symbol (name : String)
  | cast
  | unary (op : UnaryOp)
  /-- Takes the branch for the false case if there is one, then the other, then the condition. -/
  | cond (hasElse : Bool)
  | file (path : String) (decls : Nat)
  /-- Gives the part on top of a stack another id. -/
  | setId (piece : Piece) (id : NodeId)

/-- A builder and the finished parts, the latest first. -/
structure Workbench where
  builder : Builder
  types : List TypeRef
  params : List Param
  directives : List Directive
  protos : List Prototype
  exprs : List Expr
  decls : List Decl
  files : List SourceFile

/-- Takes the latest `n` parts of a stack, and gives them in the order in which they were put
there. -/
def takeLatest? {α : Type} (n : Nat) (stack : List α) : Option (List α × List α) :=
  if n ≤ stack.length then some ((stack.take n).reverse, stack.drop n) else none

namespace TypeRef

def withId (i : NodeId) : TypeRef → TypeRef
  | .named n name => .named { n with id := i } name
  | .pointer n m child => .pointer { n with id := i } m child

end TypeRef

namespace Decl

def withId (i : NodeId) : Decl → Decl
  | .fnDef d => .fnDef { d with node := { d.node with id := i } }
  | .externalBlock b => .externalBlock { b with node := { b.node with id := i } }
  | .rootExport e => .rootExport { e with node := { e.node with id := i } }
  | .use u => .use { u with node := { u.node with id := i } }

end Decl

namespace Workbench

def initial : Workbench := ⟨.initial, [], [], [], [], [], [], []⟩

/-- The id of the node that a step made, if it made one, and the workbench after it. -/
abbrev Result := Option (Option NodeId × Workbench)

def putType (w : Workbench) (b : Build TypeRef) : Option NodeId × Workbench :=
  let (t, builder) := b.run w.builder
  (some t.node.id, { w with builder := builder, types := t :: w.types })

def putExpr (w : Workbench) (b : Build Expr) : Option NodeId × Workbench :=
  let (e, builder) := b.run w.builder
  (some e.id, { w with builder := builder, exprs := e :: w.exprs })

def putDecl (w : Workbench) (b : Build Decl) : Option NodeId × Workbench :=
  let (d, builder) := b.run w.builder
  (some d.node.id, { w with builder := builder, decls := d :: w.decls })

/-- Gives the part on top of a stack another id. -/
def setId? (w : Workbench) (piece : Piece) (i : NodeId) : Option Workbench :=
  match piece with
  | .type =>
      match w.types with
      | t :: rest => some { w with types := t.withId i :: rest }
      | [] => none
  | .expr =>
      match w.exprs with
      | e :: rest => some { w with exprs := e.withId i :: rest }
      | [] => none
  | .proto =>
      match w.protos with
      | p :: rest => some { w with protos := { p with node := { p.node with id := i } } :: rest }
      | [] => none
  | .decl =>
      match w.decls with
      | d :: rest => some { w with decls := d.withId i :: rest }
      | [] => none

/-- Takes the latest directives. -/
def takeDirectives? (w : Workbench) (n : Nat) : Option (List Directive × Workbench) := do
  let (ds, rest) ← takeLatest? n w.directives
  return (ds, { w with directives := rest })

/-- Takes the latest expressions. -/
def takeExprs? (w : Workbench) (n : Nat) : Option (List Expr × Workbench) := do
  let (es, rest) ← takeLatest? n w.exprs
  return (es, { w with exprs := rest })

/-- Takes the latest expression. -/
def takeExpr? (w : Workbench) : Option (Expr × Workbench) :=
  match w.exprs with
  | e :: rest => some (e, { w with exprs := rest })
  | [] => none

/-- Takes the latest expression if there is to be one. -/
def takeOptional? (w : Workbench) (wanted : Bool) : Option (Option Expr × Workbench) :=
  if wanted then w.takeExpr?.map fun (e, w) => (some e, w) else some (none, w)

/-- Takes the latest type. -/
def takeType? (w : Workbench) : Option (TypeRef × Workbench) :=
  match w.types with
  | t :: rest => some (t, { w with types := rest })
  | [] => none

/-- Does a step, if the parts it needs are there. -/
def step? (w : Workbench) : Step → Result
  | .moveTo line column =>
      let (_, builder) := (Build.moveTo line column).run w.builder
      some (none, { w with builder := builder })
  | .namedType name => some (w.putType (.namedType name))
  | .pointerType m => do
      let (child, w) ← w.takeType?
      return w.putType (.pointerType m child)
  | .param name => do
      let (type, w) ← w.takeType?
      let (p, builder) := (Build.param name type).run w.builder
      return (some p.node.id, { w with builder := builder, params := p :: w.params })
  | .directive name param =>
      let (d, builder) := (Build.directive name param).run w.builder
      some (some d.node.id, { w with builder := builder, directives := d :: w.directives })
  | .prototype name visibility n => do
      let (returnType, w) ← w.takeType?
      let (params, rest) ← takeLatest? n w.params
      let (p, builder) := (Build.prototype name visibility params returnType).run w.builder
      return (some p.node.id,
        { w with builder := builder, params := rest, protos := p :: w.protos })
  | .prototypeDirectives n => do
      let (ds, w) ← w.takeDirectives? n
      match w.protos with
      | p :: rest =>
          return (none, { w with protos := { p with directives := p.directives ++ ds } :: rest })
      | [] => none
  | .fnDef => do
      let (body, w) ← w.takeExpr?
      match w.protos with
      | p :: rest => return { w with protos := rest }.putDecl (.fnDef p body)
      | [] => none
  | .externalBlock n m => do
      let (ds, w) ← w.takeDirectives? n
      let (ps, rest) ← takeLatest? m w.protos
      return { w with protos := rest }.putDecl (.externalBlock ds ps)
  | .rootExport kind name n => do
      let (ds, w) ← w.takeDirectives? n
      return w.putDecl (.rootExport kind name ds)
  | .useDecl path n => do
      let (ds, w) ← w.takeDirectives? n
      return w.putDecl (.useDecl path ds)
  | .block n => do
      let (es, w) ← w.takeExprs? n
      return w.putExpr (.block es)
  | .ret hasValue => do
      let (value, w) ← w.takeOptional? hasValue
      return w.putExpr (.ret value)
  | .binary op => do
      let (right, w) ← w.takeExpr?
      let (left, w) ← w.takeExpr?
      return w.putExpr (.binary op left right)
  | .call name n => do
      let (args, w) ← w.takeExprs? n
      return w.putExpr (.call name args)
  | .callExpr n => do
      let (args, w) ← w.takeExprs? n
      let (callee, w) ← w.takeExpr?
      return w.putExpr (.callExpr callee args)
  | .number value => some (w.putExpr (.number value))
  | .string text => some (w.putExpr (.string text))
  | .unreachable => some (w.putExpr .unreachable)
  | .void => some (w.putExpr .void)
  | .symbol name => some (w.putExpr (.symbol name))
  | .cast => do
      let (operand, w) ← w.takeExpr?
      let (target, w) ← w.takeType?
      return w.putExpr (.cast operand target)
  | .unary op => do
      let (operand, w) ← w.takeExpr?
      return w.putExpr (.unary op operand)
  | .cond hasElse => do
      let (elseBranch, w) ← w.takeOptional? hasElse
      let (thenBranch, w) ← w.takeExpr?
      let (condition, w) ← w.takeExpr?
      return w.putExpr (.cond condition thenBranch elseBranch)
  | .file path n => do
      let (ds, rest) ← takeLatest? n w.decls
      let (f, builder) := (Build.file path ds).run w.builder
      return (some f.root.id, { w with builder := builder, decls := rest, files := f :: w.files })
  | .setId piece i => (w.setId? piece i).map (some i, ·)

/-- Does all steps, and gives the ids of the nodes that they made. -/
def run? (w : Workbench) : List Step → Option (List (Option NodeId) × Workbench)
  | [] => some ([], w)
  | s :: rest => do
      let (id, w) ← w.step? s
      let (ids, w) ← w.run? rest
      return (id :: ids, w)

/-- The finished files as a program. -/
def program (w : Workbench) (entry : UInt64) : Program := ⟨w.files.reverse, entry⟩

end Workbench

end Sema
