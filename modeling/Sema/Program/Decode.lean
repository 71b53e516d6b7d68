import Sema.Json.Reading
import Sema.Program
import Sema.Program.Words

/-!
Programs from JSON.

A record may be written as an object or as an array of its fields in order, in which fields at the
end that have a default may be missing. In an object the members may stand in any order, members
that are no fields are ignored, and no field may be given twice. A value of several kinds is told by
its tag: the member `type` of an object, at any place, or the first item of an array.

Decoding has two sides. What a reading stands for does not depend on the order in which it is looked
at. Which of several faults is reported does: the text counts from left to right, and the first
problem decides. There a declaration is read as JSON as a whole before its parts are looked at, all
but its tag; and outside of declarations the value of a member that is no field is skipped, so that
neither its depth nor its strings and numbers are held against it.
-/

namespace Sema

open Json (Reading Members Fault Halt)

/-- Why a text is no program: it is no JSON, it ends too early, or it is JSON of another form. -/
inductive DecodeError where
  | malformed
  | ended
  | mismatch
deriving DecidableEq

def DecodeError.ofFault : Fault → DecodeError
  | .malformed => .malformed
  | .ended => .ended

namespace Json.Reading

/-! ### What a reading stands for -/

def text? : Reading → Option String
  | .string text => text
  | _ => none

def bool? : Reading → Option Bool
  | .bool b => some b
  | _ => none

def word32? : Reading → Option UInt32
  | .number (.natural n) => if n.toNat < UInt32.size then some n.toUInt32 else none
  | _ => none

def word64? : Reading → Option UInt64
  | .number (.natural n) => some n
  | _ => none

/-- The items of an array, each of which stands for something. -/
def list? {α : Type} (item? : Reading → Option α) : Reading → Option (List α)
  | .array items _ => items.mapM item?
  | _ => none

/-- The fields of a record that are given. -/
structure Fields where
  given : List (String × Reading)
  /-- Whether the record is written as an array. -/
  listed : Bool

/-- The members of an object that are fields. -/
def knownMembers (names : List String) (members : Members) : List (String × Reading) :=
  members.filterMap fun (key, v) => key.bind fun k => if names.contains k then some (k, v) else none

/-- The fields of a record with the given field names. -/
def fields? (names : List String) : Reading → Option Fields
  | .object members _ =>
      let known := knownMembers names members
      if (known.map (·.1)).Nodup then some ⟨known, false⟩ else none
  | .array items _ => if items.length ≤ names.length then some ⟨names.zip items, true⟩ else none
  | _ => none

namespace Fields

variable {α : Type} (f : Fields) (name : String) (value? : Reading → Option α)

/-- A field that has to be given. -/
def required? : Option α := (f.given.lookup name).bind value?

/-- A field with a default. -/
def defaulted? (default : α) : Option α :=
  match f.given.lookup name with
  | none => some default
  | some r => value? r

/-- A field that may be null. In an object it may be missing as well. -/
def nullable? : Option (Option α) :=
  match f.given.lookup name with
  | none => if f.listed then none else some none
  | some .null => some none
  | some r => (value? r).map some

end Fields

/-- The tag that a reading stands for, which may also be given by its place among the tags. -/
def tag? (tags : List String) : Reading → Option String
  | .string (some s) => if tags.contains s then some s else none
  | .number (.natural n) => tags[n.toNat]?
  | _ => none

/-- A value of several kinds: its tag, and what is left to read by it. -/
def tagged? (tags : List String) : Reading → Option (String × Reading)
  | .object members stop =>
      match members.filter (·.1 = some "type") with
      | [(_, t)] => do return (← t.tag? tags, .object (members.filter (·.1 ≠ some "type")) stop)
      | _ => none
  | .array (t :: items) stop => do return (← t.tag? tags, .array items stop)
  | _ => none

/-- A word, which may also be the only member name of an object, with null or an empty object as its
value. -/
def choice? {α : Type} (ofWord? : String → Option α) : Reading → Option α
  | .string (some s) => ofWord? s
  | .object [(some s, .null)] _ => ofWord? s
  | .object [(some s, .object [] _)] _ => ofWord? s
  | _ => none

end Json.Reading

/-! ### Records -/

open Json.Reading (Fields)

def NodeId.ofReading? (r : Reading) : Option NodeId := r.word32?.map NodeId.mk

def Position.fieldNames : List String := ["line", "column", "offset"]

def Position.ofReading? (r : Reading) : Option Position := do
  let f ← r.fields? fieldNames
  return {
    line := ← f.required? "line" Reading.word32?
    column := ← f.required? "column" Reading.word32?
    offset := ← f.defaulted? "offset" Reading.word32? 0 }

def Node.ofFields? (f : Fields) : Option Node := do
  return ⟨← f.required? "id" NodeId.ofReading?, ← f.required? "pos" Position.ofReading?⟩

def Directive.ofReading? (r : Reading) : Option Directive := do
  let f ← r.fields? ["id", "pos", "name", "param"]
  return {
    node := ← Node.ofFields? f
    name := ← f.required? "name" Reading.text?
    param := ← f.defaulted? "param" Reading.text? "" }

def directives? (f : Fields) : Option (List Directive) :=
  f.defaulted? "directives" (Reading.list? Directive.ofReading?) []

/-! ### Trees

The first argument bounds how deep a tree may go; no reading that is looked at is as deep as the
bound that it is given. -/

def TypeRef.ofReading? : Nat → Reading → Option TypeRef
  | 0, _ => none
  | depth + 1, r => do
      let f ← r.fields? ["id", "pos", "kind"]
      let node ← Node.ofFields? f
      let (tag, kind) ← f.required? "kind" (Reading.tagged? tags)
      if tag = "primitive" then
        let f ← kind.fields? ["name"]
        return .named node (← f.required? "name" Reading.text?)
      else
        let f ← kind.fields? ["is_const", "child"]
        let isConst ← f.required? "is_const" Reading.bool?
        return .pointer node (.ofConst isConst) (← f.required? "child" (TypeRef.ofReading? depth))

def Param.ofReading? (depth : Nat) (r : Reading) : Option Param := do
  let f ← r.fields? ["id", "pos", "name", "ty"]
  return {
    node := ← Node.ofFields? f
    name := ← f.required? "name" Reading.text?
    type := ← f.required? "ty" (TypeRef.ofReading? depth) }

def Prototype.ofReading? (depth : Nat) (r : Reading) : Option Prototype := do
  let f ← r.fields? ["id", "pos", "name", "visibility", "params", "return_type", "directives"]
  return {
    node := ← Node.ofFields? f
    name := ← f.required? "name" Reading.text?
    visibility := ← f.defaulted? "visibility" (Reading.choice? Visibility.ofWord?) .fileOnly
    params := ← f.required? "params" (Reading.list? (Param.ofReading? depth))
    returnType := ← f.required? "return_type" (TypeRef.ofReading? depth)
    directives := ← directives? f }

/-- The parts of an expression by its tag; `part?` reads an expression inside of it. -/
def Expr.ofKind? (depth : Nat) (part? : Reading → Option Expr) (node : Node) (tag : String)
    (kind : Reading) : Option Expr :=
  match tag with
  | "block" => do
      let f ← kind.fields? ["statements"]
      return .block node (← f.required? "statements" (Reading.list? part?))
  | "return" => do
      let f ← kind.fields? ["expr"]
      return .ret node (← f.nullable? "expr" part?)
  | "binary" => do
      let f ← kind.fields? ["op", "lhs", "rhs"]
      return .binary node (← f.required? "op" (Reading.choice? BinaryOp.ofWord?))
        (← f.required? "lhs" part?) (← f.required? "rhs" part?)
  | "call" => do
      let f ← kind.fields? ["callee", "args"]
      return .call node (← f.required? "callee" part?)
        (← f.required? "args" (Reading.list? part?))
  | "number_literal" => do
      let f ← kind.fields? ["value"]
      return .number node (← f.required? "value" Reading.text?)
  | "string_literal" => do
      let f ← kind.fields? ["value"]
      return .string node (← f.required? "value" Reading.text?)
  | "unreachable" => do
      let _ ← kind.fields? []
      return .unreachable node
  | "void" => do
      let _ ← kind.fields? []
      return .void node
  | "symbol" => do
      let f ← kind.fields? ["name"]
      return .symbol node (← f.required? "name" Reading.text?)
  | "cast" => do
      let f ← kind.fields? ["expr", "ty"]
      return .cast node (← f.required? "expr" part?)
        (← f.required? "ty" (TypeRef.ofReading? depth))
  | "prefix" => do
      let f ← kind.fields? ["op", "operand"]
      return .unary node (← f.required? "op" (Reading.choice? UnaryOp.ofWord?))
        (← f.required? "operand" part?)
  | "if" => do
      let f ← kind.fields? ["condition", "then_block", "else_node"]
      return .cond node (← f.required? "condition" part?) (← f.required? "then_block" part?)
        (← f.nullable? "else_node" part?)
  | _ => none

def Expr.ofReading? : Nat → Reading → Option Expr
  | 0, _ => none
  | depth + 1, r => do
      let f ← r.fields? ["id", "pos", "kind"]
      let node ← Node.ofFields? f
      let (tag, kind) ← f.required? "kind" (Reading.tagged? tags)
      Expr.ofKind? depth (Expr.ofReading? depth) node tag kind

/-! ### Declarations and programs -/

def ExternalFn.ofReading? (depth : Nat) (r : Reading) : Option ExternalFn := do
  let f ← r.fields? ["id", "pos", "proto"]
  return ⟨← Node.ofFields? f, ← f.required? "proto" (Prototype.ofReading? depth)⟩

def FnDef.ofReading? (depth : Nat) (r : Reading) : Option FnDef := do
  let f ← r.fields? ["id", "pos", "proto", "body"]
  return ⟨← Node.ofFields? f, ← f.required? "proto" (Prototype.ofReading? depth),
    ← f.required? "body" (Expr.ofReading? depth)⟩

def ExternalBlock.ofReading? (depth : Nat) (r : Reading) : Option ExternalBlock := do
  let f ← r.fields? ["id", "pos", "directives", "fn_decls"]
  return ⟨← Node.ofFields? f, ← directives? f,
    ← f.required? "fn_decls" (Reading.list? (ExternalFn.ofReading? depth))⟩

def RootExport.ofReading? (r : Reading) : Option RootExport := do
  let f ← r.fields? ["id", "pos", "kind", "name", "directives"]
  return ⟨← Node.ofFields? f, ← f.required? "kind" Reading.text?,
    ← f.required? "name" Reading.text?, ← directives? f⟩

def UseDecl.ofReading? (r : Reading) : Option UseDecl := do
  let f ← r.fields? ["id", "pos", "path", "directives"]
  return ⟨← Node.ofFields? f, ← f.required? "path" Reading.text?, ← directives? f⟩

def Decl.ofReading? (depth : Nat) (r : Reading) : Option Decl := do
  let (tag, kind) ← r.tagged? tags
  match tag with
  | "fn_def" => (FnDef.ofReading? depth kind).map .fnDef
  | "extern_block" => (ExternalBlock.ofReading? depth kind).map .externalBlock
  | "root_export" => (RootExport.ofReading? kind).map .rootExport
  | "use" => (UseDecl.ofReading? kind).map .use
  | _ => none

/-- The node and the declarations of a file. -/
def SourceFile.rootOfReading? (depth : Nat) (r : Reading) : Option (Node × List Decl) := do
  let f ← r.fields? ["id", "pos", "decls"]
  return (← Node.ofFields? f, ← f.required? "decls" (Reading.list? (Decl.ofReading? depth)))

def SourceFile.ofReading? (depth : Nat) (r : Reading) : Option SourceFile := do
  let f ← r.fields? ["path", "root"]
  let path ← f.required? "path" Reading.text?
  let (root, decls) ← f.required? "root" (SourceFile.rootOfReading? depth)
  return ⟨path, root, decls⟩

def Program.ofReading? (depth : Nat) (r : Reading) : Option Program := do
  let f ← r.fields? ["files", "entry"]
  return ⟨← f.required? "files" (Reading.list? (SourceFile.ofReading? depth)),
    ← f.required? "entry" Reading.word64?⟩

end Sema
