import Sema.Program

/-!
Building trees by hand. A builder gives every node it makes a fresh id, counted from zero, and the
current position, which is the start of a file until it is set.
-/

namespace Sema

structure Builder where
  next : UInt32
  pos : Position

/-- A step of building that gives a value. -/
abbrev Build := StateM Builder

def Builder.initial : Builder := ⟨0, .start⟩

namespace Build

/-- Sets the position of the nodes built from now on; their byte offset stays as it is. -/
def moveTo (line column : UInt32) : Build Unit :=
  modify fun b => { b with pos := { b.pos with line := line, column := column } }

/-- A fresh node. -/
def node : Build Node :=
  modifyGet fun b => (⟨⟨b.next⟩, b.pos⟩, { b with next := b.next + 1 })

/-! ### Types and signatures -/

def namedType (name : String) : Build TypeRef := return .named (← node) name

def pointerType (m : Mutability) (child : TypeRef) : Build TypeRef :=
  return .pointer (← node) m child

def param (name : String) (type : TypeRef) : Build Param := return ⟨← node, name, type⟩

def directive (name param : String) : Build Directive := return ⟨← node, name, param⟩

/-- A signature without directives. -/
def prototype (name : String) (visibility : Visibility) (params : List Param)
    (returnType : TypeRef) : Build Prototype :=
  return ⟨← node, name, visibility, params, returnType, []⟩

/-! ### Declarations and files -/

def fnDef (proto : Prototype) (body : Expr) : Build Decl := return .fnDef ⟨← node, proto, body⟩

def externalFn (proto : Prototype) : Build ExternalFn := return ⟨← node, proto⟩

/-- An external block; the nodes of its functions are made before its own. -/
def externalBlock (directives : List Directive) (protos : List Prototype) : Build Decl := do
  let functions ← protos.mapM externalFn
  return .externalBlock ⟨← node, directives, functions⟩

def rootExport (kind name : String) (directives : List Directive) : Build Decl :=
  return .rootExport ⟨← node, kind, name, directives⟩

def useDecl (path : String) (directives : List Directive) : Build Decl :=
  return .use ⟨← node, path, directives⟩

def file (path : String) (decls : List Decl) : Build SourceFile := return ⟨path, ← node, decls⟩

/-! ### Expressions -/

def block (statements : List Expr) : Build Expr := return .block (← node) statements

def ret (value : Option Expr) : Build Expr := return .ret (← node) value

def binary (op : BinaryOp) (left right : Expr) : Build Expr :=
  return .binary (← node) op left right

def symbol (name : String) : Build Expr := return .symbol (← node) name

/-- A call of any expression. -/
def callExpr (callee : Expr) (args : List Expr) : Build Expr := return .call (← node) callee args

/-- A call by name; the node of the name is made first. -/
def call (name : String) (args : List Expr) : Build Expr := do
  let callee ← symbol name
  callExpr callee args

/-- A number literal in decimal digits. -/
def number (value : UInt64) : Build Expr := return .number (← node) (Nat.repr value.toNat)

def string (text : String) : Build Expr := return .string (← node) text

def unreachable : Build Expr := return .unreachable (← node)

def void : Build Expr := return .void (← node)

def cast (operand : Expr) (target : TypeRef) : Build Expr := return .cast (← node) operand target

def unary (op : UnaryOp) (operand : Expr) : Build Expr := return .unary (← node) op operand

def cond (condition thenBranch : Expr) (elseBranch : Option Expr) : Build Expr :=
  return .cond (← node) condition thenBranch elseBranch

end Build

end Sema
