import Sema.Json
import Sema.Program
import Sema.Program.Words

/-!
Programs as JSON. Every field is written, also one that holds its default; what is absent is null.
The kind of a declaration, of a written type or of an expression is told by a member `type`, which
comes first.
-/

namespace Sema

open Json (natural string array object)

def Position.toJson (p : Position) : Json :=
  object [
    ("line", natural p.line.toNat), ("column", natural p.column.toNat),
    ("offset", natural p.offset.toNat)]

def NodeId.toJson (n : NodeId) : Json := natural n.value.toNat

/-- The members that every node has. -/
def Node.members (n : Node) : List (String × Json) :=
  [("id", n.id.toJson), ("pos", n.pos.toJson)]

/-- The members of a value whose kind is told by a tag. -/
def tagged (tag : String) (members : List (String × Json)) : Json :=
  object (("type", string tag) :: members)

def Directive.toJson (d : Directive) : Json :=
  object (d.node.members ++ [("name", string d.name), ("param", string d.param)])

def TypeRef.toJson : TypeRef → Json
  | .named node name =>
      object (node.members ++ [("kind", tagged "primitive" [("name", string name)])])
  | .pointer node m child =>
      object (node.members ++ [
        ("kind", tagged "pointer" [("is_const", .bool m.isConst), ("child", child.toJson)])])

def Param.toJson (p : Param) : Json :=
  object (p.node.members ++ [("name", string p.name), ("ty", p.type.toJson)])

def directivesToJson (ds : List Directive) : Json := array (ds.map Directive.toJson)

def Prototype.toJson (p : Prototype) : Json :=
  object (p.node.members ++ [
    ("name", string p.name),
    ("visibility", string p.visibility.word),
    ("params", array (p.params.map Param.toJson)),
    ("return_type", p.returnType.toJson),
    ("directives", directivesToJson p.directives)])

/-- A node with its kind. -/
def Node.withKind (n : Node) (tag : String) (members : List (String × Json)) : Json :=
  object (n.members ++ [("kind", tagged tag members)])

mutual

def Expr.toJson : Expr → Json
  | .block node statements =>
      node.withKind "block" [("statements", array (exprsToJson statements))]
  | .ret node value => node.withKind "return" [("expr", optionalExprToJson value)]
  | .binary node op left right =>
      node.withKind "binary" [
        ("op", string op.word), ("lhs", left.toJson), ("rhs", right.toJson)]
  | .call node callee args =>
      node.withKind "call" [("callee", callee.toJson), ("args", array (exprsToJson args))]
  | .number node text => node.withKind "number_literal" [("value", string text)]
  | .string node text => node.withKind "string_literal" [("value", string text)]
  | .unreachable node => node.withKind "unreachable" []
  | .void node => node.withKind "void" []
  | .symbol node name => node.withKind "symbol" [("name", string name)]
  | .cast node operand target =>
      node.withKind "cast" [("expr", operand.toJson), ("ty", target.toJson)]
  | .unary node op operand =>
      node.withKind "prefix" [("op", string op.word), ("operand", operand.toJson)]
  | .cond node condition thenBranch elseBranch =>
      node.withKind "if" [
        ("condition", condition.toJson), ("then_block", thenBranch.toJson),
        ("else_node", optionalExprToJson elseBranch)]

def exprsToJson : List Expr → List Json
  | [] => []
  | e :: rest => e.toJson :: exprsToJson rest

def optionalExprToJson : Option Expr → Json
  | none => .null
  | some e => e.toJson

end

def ExternalFn.toJson (f : ExternalFn) : Json :=
  object (f.node.members ++ [("proto", f.proto.toJson)])

def Decl.toJson : Decl → Json
  | .fnDef d =>
      tagged "fn_def" (d.node.members ++ [("proto", d.proto.toJson), ("body", d.body.toJson)])
  | .externalBlock b =>
      tagged "extern_block" (b.node.members ++ [
        ("directives", directivesToJson b.directives),
        ("fn_decls", array (b.functions.map ExternalFn.toJson))])
  | .rootExport e =>
      tagged "root_export" (e.node.members ++ [
        ("kind", string e.kind), ("name", string e.name),
        ("directives", directivesToJson e.directives)])
  | .use u =>
      tagged "use" (u.node.members ++ [
        ("path", string u.path), ("directives", directivesToJson u.directives)])

def SourceFile.toJson (f : SourceFile) : Json :=
  object [
    ("path", string f.path),
    ("root", object (f.root.members ++ [("decls", array (f.decls.map Decl.toJson))]))]

def Program.toJson (p : Program) : Json :=
  object [
    ("files", array (p.files.map SourceFile.toJson)),
    ("entry", natural p.entry.toNat)]

/-- The written form of a program. -/
def Program.toText (p : Program) : String := p.toJson.compact

end Sema
