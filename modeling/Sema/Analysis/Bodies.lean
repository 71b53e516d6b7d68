import Sema.Analysis
import Sema.Analysis.Checked
import Sema.Operator
import Sema.Program

/-!
The second half of an analysis: the bodies of the functions are checked against their signatures.

Types flow both ways. An expression is given the type that is expected of it, or none where any type
will do; it has a type of its own, which does not depend on the expected one, and the two are
compared once.

Every body is checked against what the signatures have left. What the bodies before it leave makes no
difference to it: see `Program.analyzeInTurn_eq`.
-/

namespace Sema

/-- What a body sees: the analysis as the signatures have left it, and the body's own file. -/
structure Scope where
  analysis : Analysis
  file : Nat
  path : String

namespace Scope

variable (s : Scope)

def report (pos : Position) (issue : Issue) : Checked Unit := .report s.path pos issue

def unsupported (pos : Position) (construct : String) : AnalysisError :=
  .unsupported construct s.path pos

def typeName (t : TypeId) : Checked String :=
  .ofOption (.outOfRange t.index) (s.analysis.types.name? t)

/-- The type that the signatures have noted for a written type. -/
def resolvedType (t : TypeRef) : Checked TypeId :=
  .ofOption (.missingNote t.node.id "resolved type") (s.analysis.notes.resolvedType? t.node.id)

/-- The types of the parameters and of the result of a function. -/
def signature (f : FunctionId) : Checked (List (Option TypeId) × TypeId) := do
  let fn ← Checked.ofOption (.outOfRange f.index) (s.analysis.function? f)
  let result ← s.resolvedType fn.proto.returnType
  return (fn.proto.params.map fun p => s.analysis.notes.resolvedType? p.type.node.id, result)

/-- Compares a type with the one that is expected, if any is. -/
def compare (pos : Position) (expected : Option TypeId) (actual : TypeId) : Checked Unit :=
  match expected with
  | none => .pure ()
  | some e =>
      if e.accepts actual then .pure ()
      else do
        let expectedName ← s.typeName e
        let actualName ← s.typeName actual
        s.report pos (.mismatch expectedName actualName)

/-- Ends an expression: its type is compared with the expected one, then noted. -/
def conclude (node : Node) (expected : Option TypeId) (type : TypeId) : Checked TypeId := do
  s.compare node.pos expected type
  Checked.note node.id (.expr type)
  return type

/-- Ends a `return`. Its value is compared with the type that the function returns. -/
def concludeReturn (node : Node) (returns : TypeId) (actual : TypeId) : Checked Unit :=
  if actual = .unreachable then do
    s.report node.pos .unreachableReturn
    s.compare node.pos (some returns) .invalid
  else s.compare node.pos (some returns) actual

end Scope

mutual

/-- Checks an expression in a function that returns `returns` and gives the type it has. -/
def Scope.check (s : Scope) (returns : TypeId) (expected : Option TypeId) : Expr → Checked TypeId
  | .block node statements => do
      let type ← s.checkBlock returns .void statements
      s.conclude node expected type
  | .ret node value => do
      let actual ← s.checkOptional returns (some returns) value
      s.concludeReturn node returns (actual.getD .void)
      s.conclude node expected .unreachable
  | .binary node op left right => do
      let rule ← Checked.ofExcept (s.unsupported node.pos) op.rule
      let _ ← s.check returns (some rule.operand) left
      let _ ← s.check returns (some rule.operand) right
      s.conclude node expected rule.result
  | .call node callee args =>
      match callee with
      | .symbol _ name =>
          match s.analysis.lookupFunction s.file name with
          | some f => do
              let (params, result) ← s.signature f
              if params.length ≠ args.length then
                s.report node.pos (.argumentCount params.length args.length)
              s.checkArgs returns params args
              s.conclude node expected result
          | none => do
              s.report node.pos (.undefinedFunction name)
              s.checkArgs returns [] args
              s.conclude node expected .invalid
      | other => .fail (s.unsupported other.pos "indirect call")
  | .number node _ => s.conclude node expected .i32
  | .string node _ => s.conclude node expected .stringLiteral
  | .unreachable node => s.conclude node expected .unreachable
  | .void node => s.conclude node expected .void
  | .symbol node _ => .fail (s.unsupported node.pos "symbol reference")
  | .cast node _ _ => .fail (s.unsupported node.pos "cast expression")
  | .unary node op operand => do
      let rule ← Checked.ofExcept (s.unsupported node.pos) op.rule
      let _ ← s.check returns (some rule.operand) operand
      s.conclude node expected rule.result
  | .cond node condition thenBranch elseBranch => do
      let _ ← s.check returns (some .bool) condition
      let elseType ← s.checkOptional returns expected elseBranch
      let thenType ← s.check returns expected thenBranch
      -- Without an expectation the branches are compared with each other.
      let wanted :=
        if elseType.isSome && expected.isNone && thenType ≠ .unreachable then some thenType
        else expected
      s.compare node.pos wanted (elseType.getD .void)
      s.conclude node expected thenType

/-- Checks a part that may be missing. -/
def Scope.checkOptional (s : Scope) (returns : TypeId) (expected : Option TypeId) :
    Option Expr → Checked (Option TypeId)
  | none => .pure none
  | some e => do return some (← s.check returns expected e)

/-- Checks statements after one of type `last`. A block has the type of its last checked statement.
After a statement that never completes the others are not checked; each is an issue unless it is the
`void` marker. -/
def Scope.checkBlock (s : Scope) (returns : TypeId) (last : TypeId) :
    List Expr → Checked TypeId
  | [] => .pure last
  | e :: rest =>
      if last = .unreachable then do
        if !e.isVoid then
          s.report e.pos .unreachableCode
        s.checkBlock returns last rest
      else do
        let type ← s.check returns none e
        s.checkBlock returns type rest

/-- Checks arguments against the types of the parameters, as far as these are known. -/
def Scope.checkArgs (s : Scope) (returns : TypeId) (params : List (Option TypeId)) :
    List Expr → Checked Unit
  | [] => .pure ()
  | e :: rest => do
      let _ ← s.check returns params.head?.join e
      s.checkArgs returns params.tail rest

end

namespace Scope

/-- Checks the body of a definition, unless a note keeps it out. -/
def checkDefinition (s : Scope) (d : FnDef) : Checked Unit :=
  if s.analysis.notes.isSkipped d.node.id then .pure ()
  else do
    let returns ← s.resolvedType d.proto.returnType
    let type ← s.check returns (some returns) d.body
    Checked.note d.node.id (.fnDef false (some type))

def checkDecl (s : Scope) : Decl → Checked Unit
  | .fnDef d => s.checkDefinition d
  | .use u => u.directives.forM fun d => s.report d.node.pos (.invalidDirective d.name)
  | .externalBlock _ => .pure ()
  | .rootExport _ => .pure ()

end Scope

namespace Analysis

/-- Checks the bodies of the files from index `i` on. -/
def checkFiles (a : Analysis) (i : Nat) : List SourceFile → Checked Unit
  | [] => .pure ()
  | f :: rest => do
      f.decls.forM (Scope.checkDecl ⟨a, i, f.path⟩)
      a.checkFiles (i + 1) rest

/-- Writes down what checking gave. The notes go first: one that cannot be written stood before the
place where checking stopped. -/
def absorb (a : Analysis) (c : Checked Unit) : Except AnalysisError Analysis := do
  let notes ← a.notes.recordAll c.notes
  c.outcome
  return { a with notes := notes, findings := a.findings ++ c.findings }

end Analysis

end Sema
