import Mathlib.Data.List.Flatten
import Sema.Proofs.Reading

/-!
All nodes of trees. The nodes that can be noted are among them; besides there are those of files,
signatures, parameters, directives and functions from outside, those of blocks and exports, and those
of the types that casts lead to.
-/

namespace Sema

/-- The nodes of a written type. -/
def TypeRef.nodes (t : TypeRef) : List Node := t.parts.map TypeRef.node

@[simp] theorem TypeRef.nodes_named (n : Node) (name : String) :
    (TypeRef.named n name).nodes = [n] := rfl

@[simp] theorem TypeRef.nodes_pointer (n : Node) (m : Mutability) (child : TypeRef) :
    (TypeRef.pointer n m child).nodes = child.nodes ++ [n] := by
  rw [nodes, parts, List.map_append]
  rfl

namespace Expr

/-- The nodes that an expression adds to those of its parts. -/
def ownNodes : Expr → List Node
  | .cast n _ target => target.nodes ++ [n]
  | e => [e.node]

/-- The nodes of an expression. -/
def nodes (e : Expr) : List Node := e.parts.flatMap ownNodes

theorem partsAll_eq (l : List Expr) : partsAll l = l.flatMap parts := by
  induction l with
  | nil => rfl
  | cons e l ih => rw [partsAll, ih, List.flatMap_cons]

theorem partsOptional_eq (e : Option Expr) : partsOptional e = e.toList.flatMap parts := by
  cases e with
  | none => rfl
  | some e => rw [partsOptional, Option.toList_some, List.flatMap_singleton]

section

variable (n : Node)

@[simp] theorem nodes_block (l : List Expr) : (block n l).nodes = l.flatMap nodes ++ [n] := by
  rw [nodes, parts, partsAll_eq, List.flatMap_append, List.flatMap_assoc]
  rfl

@[simp] theorem nodes_ret (v : Option Expr) :
    (ret n v).nodes = v.toList.flatMap nodes ++ [n] := by
  rw [nodes, parts, partsOptional_eq, List.flatMap_append, List.flatMap_assoc]
  rfl

@[simp] theorem nodes_binary (op : BinaryOp) (l r : Expr) :
    (binary n op l r).nodes = l.nodes ++ r.nodes ++ [n] := by
  rw [nodes, parts, List.flatMap_append, List.flatMap_append]
  rfl

@[simp] theorem nodes_call (callee : Expr) (args : List Expr) :
    (call n callee args).nodes = callee.nodes ++ args.flatMap nodes ++ [n] := by
  rw [nodes, parts, partsAll_eq, List.flatMap_append, List.flatMap_append, List.flatMap_assoc]
  rfl

@[simp] theorem nodes_cast (e : Expr) (t : TypeRef) :
    (cast n e t).nodes = e.nodes ++ (t.nodes ++ [n]) := by
  rw [nodes, parts, List.flatMap_append, List.flatMap_singleton]
  rfl

@[simp] theorem nodes_unary (op : UnaryOp) (e : Expr) :
    (unary n op e).nodes = e.nodes ++ [n] := by
  rw [nodes, parts, List.flatMap_append]
  rfl

@[simp] theorem nodes_cond (c t : Expr) (e : Option Expr) :
    (cond n c t e).nodes = c.nodes ++ e.toList.flatMap nodes ++ t.nodes ++ [n] := by
  rw [nodes, parts, partsOptional_eq, List.flatMap_append, List.flatMap_append,
    List.flatMap_append, List.flatMap_assoc]
  rfl

@[simp] theorem nodes_number (text : String) : (number n text).nodes = [n] := rfl

@[simp] theorem nodes_string (text : String) : (string n text).nodes = [n] := rfl

@[simp] theorem nodes_unreachable : (unreachable n).nodes = [n] := rfl

@[simp] theorem nodes_void : (void n).nodes = [n] := rfl

@[simp] theorem nodes_symbol (name : String) : (symbol n name).nodes = [n] := rfl

end

end Expr

/-! ### Declarations and files -/

def Param.nodes (p : Param) : List Node := p.type.nodes ++ [p.node]

def Prototype.nodes (p : Prototype) : List Node :=
  p.directives.map Directive.node ++ (p.params.flatMap Param.nodes ++ p.returnType.nodes) ++ [p.node]

def ExternalFn.nodes (f : ExternalFn) : List Node := f.proto.nodes ++ [f.node]

def Decl.nodes : Decl → List Node
  | .fnDef d => d.proto.nodes ++ d.body.nodes ++ [d.node]
  | .externalBlock b =>
      b.directives.map Directive.node ++ b.functions.flatMap ExternalFn.nodes ++ [b.node]
  | .rootExport e => e.directives.map Directive.node ++ [e.node]
  | .use u => u.directives.map Directive.node ++ [u.node]

def SourceFile.nodes (f : SourceFile) : List Node := f.decls.flatMap Decl.nodes ++ [f.root]

def Program.nodes (p : Program) : List Node := p.files.flatMap SourceFile.nodes

/-! ### Nodes that can be noted -/

theorem Expr.ids_sublist (e : Expr) : (e.parts.map Expr.id).Sublist (e.nodes.map Node.id) := by
  have hown : ∀ x : Expr, [x.id].Sublist (x.ownNodes.map Node.id) := by
    intro x
    refine List.singleton_sublist.mpr (List.mem_map_of_mem ?_)
    cases x <;> simp [ownNodes, node]
  rw [nodes, List.map_flatMap, List.map_eq_flatMap]
  exact .flatMap_right e.parts fun x _ => hown x

theorem Prototype.ids_sublist (p : Prototype) :
    (p.parts.map (·.node.id)).Sublist (p.nodes.map Node.id) := by
  have htype : ∀ t : TypeRef, t.parts.map (·.node.id) = t.nodes.map Node.id := fun t => by
    rw [TypeRef.nodes, List.map_map]
    rfl
  have hparam : ∀ q : Param, (q.type.parts.map (·.node.id)).Sublist (q.nodes.map Node.id) := by
    intro q
    rw [htype, Param.nodes, List.map_append]
    exact List.sublist_append_left _ _
  have htypes : p.parts.map (·.node.id) =
      (p.params.flatMap fun q => q.type.parts.map (·.node.id)) ++ p.returnType.nodes.map Node.id := by
    rw [parts, types, List.flatMap_append, List.flatMap_map, List.flatMap_singleton,
      List.map_append, List.map_flatMap, htype]
  rw [htypes, nodes, List.map_append, List.map_append, List.map_append, List.map_flatMap]
  refine (List.Sublist.append_right (.flatMap_right p.params fun q _ => hparam q) _).trans ?_
  exact (List.sublist_append_right _ _).trans (List.sublist_append_left _ _)

theorem Decl.ids_sublist : ∀ d : Decl, d.ids.Sublist (d.nodes.map Node.id)
  | .fnDef d => by
    rw [ids, nodes, List.map_append, List.map_append]
    exact (d.proto.ids_sublist.append d.body.ids_sublist).append (List.Sublist.refl _)
  | .externalBlock b => by
    have hfn : ∀ f : ExternalFn,
        (f.proto.parts.map (·.node.id)).Sublist (f.nodes.map Node.id) := by
      intro f
      rw [ExternalFn.nodes, List.map_append]
      exact f.proto.ids_sublist.trans (List.sublist_append_left _ _)
    rw [ids, nodes, List.map_append, List.map_append, List.map_flatMap]
    have hfns := List.Sublist.flatMap_right b.functions fun f _ => hfn f
    exact (hfns.trans (List.sublist_append_right _ _)).trans (List.sublist_append_left _ _)
  | .rootExport _ => List.nil_sublist _
  | .use _ => List.nil_sublist _

/-- The nodes of a program that can be noted are among all its nodes. -/
theorem Program.ids_sublist (p : Program) : p.ids.Sublist (p.nodes.map Node.id) := by
  rw [ids, flatMap_snd_decls p Decl.ids, nodes, List.map_flatMap]
  refine .flatMap_right p.files fun f _ => ?_
  rw [SourceFile.nodes, List.map_append, List.map_flatMap]
  exact (List.Sublist.flatMap_right f.decls fun d _ => d.ids_sublist).trans
    (List.sublist_append_left _ _)

end Sema
