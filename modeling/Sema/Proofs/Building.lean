import Mathlib.Data.List.Perm.Subperm
import Sema.Builder.Script
import Sema.Proofs.Nodes
import Sema.Proofs.Refusal

/-!
Trees built by hand. A run of building steps, in which finished parts may be picked in any order but
each for one place only, makes nodes with distinct ids, so that analysis of what was built never finds
a node with two notes.
-/

namespace Sema

/-! ### Fresh nodes -/

namespace Builder

/-- The next nodes that a builder makes. -/
def fresh (b : Builder) : Nat → List Node
  | 0 => []
  | k + 1 => ⟨⟨b.next⟩, b.pos⟩ :: fresh { b with next := b.next + 1 } k

/-- A builder after it made some nodes. -/
def after (b : Builder) : Nat → Builder
  | 0 => b
  | k + 1 => after { b with next := b.next + 1 } k

theorem fresh_append (b : Builder) (m n : Nat) :
    b.fresh (m + n) = b.fresh m ++ (b.after m).fresh n := by
  induction m generalizing b with
  | zero => rw [Nat.zero_add]; rfl
  | succ m ih => rw [Nat.succ_add, fresh, ih]; rfl

theorem after_add (b : Builder) (m n : Nat) : b.after (m + n) = (b.after m).after n := by
  induction m generalizing b with
  | zero => rw [Nat.zero_add]; rfl
  | succ m ih => rw [Nat.succ_add, after, ih]; rfl

@[simp] theorem pos_after (b : Builder) (k : Nat) : (b.after k).pos = b.pos := by
  induction k generalizing b with
  | zero => rfl
  | succ k ih => rw [after, ih]

/-- As long as the counter does not overflow it counts the nodes. -/
theorem next_after {b : Builder} {k : Nat} (h : b.next.toNat + k < 2 ^ 32) :
    (b.after k).next.toNat = b.next.toNat + k := by
  induction k generalizing b with
  | zero => rfl
  | succ k ih =>
    have hnext : (b.next + 1).toNat = b.next.toNat + 1 := by
      rw [UInt32.toNat_add]
      exact Nat.mod_eq_of_lt (by change b.next.toNat + 1 < 2 ^ 32; omega)
    rw [after, ih (by rw [hnext]; omega), hnext]
    omega

theorem pos_of_mem_fresh {b : Builder} {k : Nat} {n : Node} (h : n ∈ b.fresh k) :
    n.pos = b.pos := by
  induction k generalizing b with
  | zero => cases h
  | succ k ih =>
    rcases List.mem_cons.mp h with rfl | h
    · rfl
    · exact ih (b := { b with next := b.next + 1 }) h

/-- As long as the counter does not overflow the ids are counted up from it. -/
theorem ids_fresh {b : Builder} {k : Nat} (h : b.next.toNat + k < 2 ^ 32) :
    (b.fresh k).map (·.id.value.toNat) = List.range' b.next.toNat k := by
  induction k with
  | zero => rfl
  | succ k ih =>
    rw [fresh_append b k 1, List.map_append, ih (by omega), List.range'_concat]
    simp only [fresh, List.map_singleton, next_after (show b.next.toNat + k < 2 ^ 32 by omega),
      Nat.one_mul]

end Builder

/-! ### Steps -/

namespace Step

/-- How many nodes a step makes. A call by name makes the name too, and an external block makes its
functions. -/
def nodeCount : Step → Nat
  | .moveTo .. => 0
  | .prototypeDirectives _ => 0
  | .setId .. => 0
  | .call .. => 2
  | .externalBlock _ protos => protos + 1
  | _ => 1

/-- The position that a step sets. -/
def position? : Step → Option Position
  | .moveTo line column => some ⟨line, column, 0⟩
  | _ => none

/-- Whether a step leaves the ids of finished parts as they are. -/
def keepsIds : Step → Bool
  | .setId .. => false
  | _ => true

/-- The builder after a step. -/
def builder (b : Builder) : Step → Builder
  | .moveTo line column => { b with pos := { b.pos with line := line, column := column } }
  | s => b.after s.nodeCount

end Step

theorem eq_of_takeLatest? {α : Type} {n : Nat} {stack taken rest : List α}
    (h : takeLatest? n stack = some (taken, rest)) :
    taken.length = n ∧ stack = taken.reverse ++ rest := by
  unfold takeLatest? at h
  split at h
  · next hn =>
    obtain ⟨rfl, rfl⟩ := Prod.mk.inj (Option.some.inj h)
    rw [List.length_reverse, List.length_take, List.reverse_reverse, List.take_append_drop]
    exact ⟨Nat.min_eq_left hn, rfl⟩
  · cases h

/-- What is taken from a stack is no longer on it. -/
theorem count_of_takeLatest? {α : Type} {n : Nat} {stack taken rest : List α}
    (h : takeLatest? n stack = some (taken, rest)) (f : α → List Node) (a : Node) :
    (stack.flatMap f).count a = (taken.flatMap f).count a + (rest.flatMap f).count a := by
  rw [(eq_of_takeLatest? h).2, List.flatMap_append, List.count_append,
    (taken.reverse_perm.flatMap_right f).count_eq]

/-- The functions of an external block are made one after the other. -/
theorem Build.run_externalFns (ps : List Prototype) (b : Builder) :
    ∃ fs, (ps.mapM externalFn).run b = (fs, b.after ps.length) ∧
      ∀ a, (fs.flatMap ExternalFn.nodes).count a =
        (b.fresh ps.length).count a + (ps.flatMap Prototype.nodes).count a := by
  induction ps generalizing b with
  | nil => exact ⟨[], rfl, fun _ => rfl⟩
  | cons p ps ih =>
    obtain ⟨fs, hrun, hcount⟩ := ih { b with next := b.next + 1 }
    refine ⟨⟨⟨⟨b.next⟩, b.pos⟩, p⟩ :: fs, ?_, fun a => ?_⟩
    · have hstep : ((p :: ps).mapM externalFn).run b =
          (⟨⟨⟨b.next⟩, b.pos⟩, p⟩ :: ((ps.mapM externalFn).run { b with next := b.next + 1 }).1,
            ((ps.mapM externalFn).run { b with next := b.next + 1 }).2) := by
        rw [List.mapM_cons]
        rfl
      rw [hstep, hrun]
      rfl
    · simp only [List.flatMap_cons, List.count_append, hcount, List.length_cons, Builder.fresh,
        List.count_cons, ExternalFn.nodes, List.count_nil]
      omega

theorem Build.run_externalBlock (ds : List Directive) (ps : List Prototype) (b : Builder) :
    ∃ d, (externalBlock ds ps).run b = (d, b.after (ps.length + 1)) ∧
      ∀ a, d.nodes.count a = (b.fresh (ps.length + 1)).count a +
        (ds.map Directive.node ++ ps.flatMap Prototype.nodes).count a := by
  obtain ⟨fs, hrun, hcount⟩ := run_externalFns ps b
  have hblock : (externalBlock ds ps).run b =
      (.externalBlock ⟨⟨⟨((ps.mapM externalFn).run b).2.next⟩, ((ps.mapM externalFn).run b).2.pos⟩, ds,
        ((ps.mapM externalFn).run b).1⟩, ((ps.mapM externalFn).run b).2.after 1) := rfl
  rw [hrun, ← Builder.after_add] at hblock
  refine ⟨_, hblock, fun a => ?_⟩
  rw [Builder.fresh_append]
  simp only [Decl.nodes, List.count_append, hcount, Builder.fresh]
  omega

namespace Workbench

/-- The nodes of all finished parts. -/
def nodes (w : Workbench) : List Node :=
  w.types.flatMap TypeRef.nodes ++ w.params.flatMap Param.nodes ++ w.directives.map Directive.node ++
    w.protos.flatMap Prototype.nodes ++ w.exprs.flatMap Expr.nodes ++ w.decls.flatMap Decl.nodes ++
    w.files.flatMap SourceFile.nodes

section

variable (w : Workbench) (b : Builder) (a : Node)

theorem count_cons_types (t : TypeRef) :
    ({ w with builder := b, types := t :: w.types } : Workbench).nodes.count a =
      t.nodes.count a + w.nodes.count a := by
  simp only [nodes, List.flatMap_cons, List.count_append]
  omega

theorem count_cons_params (p : Param) :
    ({ w with builder := b, params := p :: w.params } : Workbench).nodes.count a =
      p.nodes.count a + w.nodes.count a := by
  simp only [nodes, List.flatMap_cons, List.count_append]
  omega

theorem count_cons_directives (d : Directive) :
    ({ w with builder := b, directives := d :: w.directives } : Workbench).nodes.count a =
      [d.node].count a + w.nodes.count a := by
  simp only [nodes, List.map_cons, List.count_append, List.count_cons, List.count_nil]
  omega

theorem count_cons_protos (p : Prototype) :
    ({ w with builder := b, protos := p :: w.protos } : Workbench).nodes.count a =
      p.nodes.count a + w.nodes.count a := by
  simp only [nodes, List.flatMap_cons, List.count_append]
  omega

theorem count_cons_exprs (e : Expr) :
    ({ w with builder := b, exprs := e :: w.exprs } : Workbench).nodes.count a =
      e.nodes.count a + w.nodes.count a := by
  simp only [nodes, List.flatMap_cons, List.count_append]
  omega

theorem count_cons_decls (d : Decl) :
    ({ w with builder := b, decls := d :: w.decls } : Workbench).nodes.count a =
      d.nodes.count a + w.nodes.count a := by
  simp only [nodes, List.flatMap_cons, List.count_append]
  omega

theorem count_cons_files (f : SourceFile) :
    ({ w with builder := b, files := f :: w.files } : Workbench).nodes.count a =
      f.nodes.count a + w.nodes.count a := by
  simp only [nodes, List.flatMap_cons, List.count_append]
  omega

end

/-! ### Parts that are taken -/

/-- Whether a workbench comes from another by taking parts with some nodes. -/
structure Leaves (w : Workbench) (taken : List Node) (u : Workbench) : Prop where
  builder : u.builder = w.builder
  nodes : ∀ a, w.nodes.count a = taken.count a + u.nodes.count a

variable {w u : Workbench}

theorem Leaves.refl (w : Workbench) : w.Leaves [] w := ⟨rfl, fun _ => (Nat.zero_add _).symm⟩

theorem Leaves.trans {v : Workbench} {l m : List Node} (h : w.Leaves l u) (hu : u.Leaves m v) :
    w.Leaves (l ++ m) v where
  builder := hu.builder.trans h.builder
  nodes := by
    intro a
    rw [h.nodes, hu.nodes, List.count_append, Nat.add_assoc]

theorem leaves_types {t : TypeRef} {rest : List TypeRef} (h : w.types = t :: rest) :
    w.Leaves t.nodes { w with types := rest } where
  builder := rfl
  nodes := by
    intro a
    rw [← count_cons_types _ w.builder, ← h]

theorem leaves_protos {p : Prototype} {rest : List Prototype} (h : w.protos = p :: rest) :
    w.Leaves p.nodes { w with protos := rest } where
  builder := rfl
  nodes := by
    intro a
    rw [← count_cons_protos _ w.builder, ← h]

theorem leaves_exprs {e : Expr} {rest : List Expr} (h : w.exprs = e :: rest) :
    w.Leaves e.nodes { w with exprs := rest } where
  builder := rfl
  nodes := by
    intro a
    rw [← count_cons_exprs _ w.builder, ← h]

theorem leaves_of_takeType? {t : TypeRef} (h : w.takeType? = some (t, u)) : w.Leaves t.nodes u := by
  unfold takeType? at h
  split at h
  · next hw =>
    obtain ⟨rfl, rfl⟩ := Prod.mk.inj (Option.some.inj h)
    exact leaves_types hw
  · cases h

theorem leaves_of_takeExpr? {e : Expr} (h : w.takeExpr? = some (e, u)) : w.Leaves e.nodes u := by
  unfold takeExpr? at h
  split at h
  · next hw =>
    obtain ⟨rfl, rfl⟩ := Prod.mk.inj (Option.some.inj h)
    exact leaves_exprs hw
  · cases h

theorem leaves_of_takeOptional? {wanted : Bool} {e : Option Expr}
    (h : w.takeOptional? wanted = some (e, u)) : w.Leaves (e.toList.flatMap Expr.nodes) u := by
  cases wanted with
  | false =>
    obtain ⟨rfl, rfl⟩ := Prod.mk.inj (Option.some.inj h)
    exact .refl _
  | true =>
    obtain ⟨⟨e, v⟩, he, heq⟩ := Option.map_eq_some_iff.mp h
    obtain ⟨rfl, rfl⟩ := Prod.mk.inj heq
    rw [Option.toList_some, List.flatMap_singleton]
    exact leaves_of_takeExpr? he

theorem leaves_of_takeExprs? {n : Nat} {es : List Expr} (h : w.takeExprs? n = some (es, u)) :
    w.Leaves (es.flatMap Expr.nodes) u := by
  obtain ⟨⟨taken, rest⟩, ht, heq⟩ := Option.bind_eq_some_iff.mp h
  obtain ⟨rfl, rfl⟩ := Prod.mk.inj (Option.some.inj heq)
  refine ⟨rfl, fun a => ?_⟩
  have hcount := count_of_takeLatest? ht Expr.nodes a
  simp only [nodes, List.count_append]
  omega

theorem leaves_of_takeDirectives? {n : Nat} {ds : List Directive}
    (h : w.takeDirectives? n = some (ds, u)) : w.Leaves (ds.map Directive.node) u := by
  obtain ⟨⟨taken, rest⟩, ht, heq⟩ := Option.bind_eq_some_iff.mp h
  obtain ⟨rfl, rfl⟩ := Prod.mk.inj (Option.some.inj heq)
  refine ⟨rfl, fun a => ?_⟩
  have hcount := count_of_takeLatest? ht (fun d => [d.node]) a
  simp only [← List.map_eq_flatMap] at hcount
  simp only [nodes, List.count_append]
  omega

theorem leaves_params {n : Nat} {ps rest : List Param}
    (h : takeLatest? n w.params = some (ps, rest)) :
    w.Leaves (ps.flatMap Param.nodes) { w with params := rest } where
  builder := rfl
  nodes := by
    intro a
    have hcount := count_of_takeLatest? h Param.nodes a
    simp only [Workbench.nodes, List.count_append]
    omega

theorem leaves_takenProtos {n : Nat} {ps rest : List Prototype}
    (h : takeLatest? n w.protos = some (ps, rest)) :
    w.Leaves (ps.flatMap Prototype.nodes) { w with protos := rest } where
  builder := rfl
  nodes := by
    intro a
    have hcount := count_of_takeLatest? h Prototype.nodes a
    simp only [Workbench.nodes, List.count_append]
    omega

theorem leaves_decls {n : Nat} {ds rest : List Decl}
    (h : takeLatest? n w.decls = some (ds, rest)) :
    w.Leaves (ds.flatMap Decl.nodes) { w with decls := rest } where
  builder := rfl
  nodes := by
    intro a
    have hcount := count_of_takeLatest? h Decl.nodes a
    simp only [Workbench.nodes, List.count_append]
    omega

/-! ### What a step does -/

/-- What a step does that sets no id: the builder makes its nodes, and nothing is lost or doubled. -/
structure Did (w : Workbench) (s : Step) (u : Workbench) : Prop where
  builder : u.builder = s.builder w.builder
  nodes : ∀ a, u.nodes.count a = (w.builder.fresh s.nodeCount).count a + w.nodes.count a

theorem Did.of_some {s : Step} {x : Option NodeId × Workbench} {i : Option NodeId}
    (h : some x = some (i, u)) (hx : w.Did s x.2) : w.Did s u := by
  obtain rfl := Option.some.inj h
  exact hx

/-- A part is put in place of those taken for it and the nodes made. -/
theorem Leaves.did {s : Step} {v : Workbench} {l m : List Node} (h : w.Leaves l u)
    (hs : ∀ b, s.builder b = b.after s.nodeCount) (hv : v.builder = u.builder.after s.nodeCount)
    (hput : ∀ a, v.nodes.count a = m.count a + u.nodes.count a)
    (hm : ∀ a, m.count a = (u.builder.fresh s.nodeCount).count a + l.count a) : w.Did s v where
  builder := by rw [hv, hs, h.builder]
  nodes := by
    intro a
    rw [hput, hm, h.nodes, h.builder, Nat.add_assoc]

/-- Every step that sets no id makes its nodes and neither loses nor doubles others. -/
theorem did_of_step? {s : Step} {i : Option NodeId} (hs : s.keepsIds)
    (h : w.step? s = some (i, u)) : w.Did s u := by
  cases s with
  | setId => cases hs
  | moveTo line column =>
    obtain ⟨-, rfl⟩ := Prod.mk.inj (Option.some.inj h)
    exact ⟨rfl, fun a => (Nat.zero_add _).symm⟩
  | namedType name =>
    refine .of_some h ((Leaves.refl w).did (fun _ => rfl) rfl (count_cons_types _ _ · _) fun a => ?_)
    simp [Builder.fresh, Step.nodeCount]
  | pointerType m =>
    obtain ⟨⟨child, v⟩, hv, h⟩ := Option.bind_eq_some_iff.mp h
    refine .of_some h ((leaves_of_takeType? hv).did (fun _ => rfl) rfl (count_cons_types _ _ · _)
      fun a => ?_)
    simp [Builder.fresh, Step.nodeCount, Nat.add_comm]
  | param name =>
    obtain ⟨⟨t, v⟩, hv, h⟩ := Option.bind_eq_some_iff.mp h
    refine .of_some h ((leaves_of_takeType? hv).did (fun _ => rfl) rfl (count_cons_params _ _ · _)
      fun a => ?_)
    simp [Builder.fresh, Step.nodeCount, Nat.add_comm, Param.nodes]
  | directive name text =>
    refine .of_some h ((Leaves.refl w).did (fun _ => rfl) rfl (count_cons_directives _ _ · _)
      fun a => ?_)
    simp [Builder.fresh, Step.nodeCount]
  | prototype name visibility n =>
    obtain ⟨⟨t, v⟩, hv, h⟩ := Option.bind_eq_some_iff.mp h
    obtain ⟨⟨ps, rest⟩, hps, h⟩ := Option.bind_eq_some_iff.mp h
    refine .of_some h (((leaves_of_takeType? hv).trans (leaves_params hps)).did (fun _ => rfl) rfl
      (count_cons_protos { v with params := rest } _ · _) fun a => ?_)
    simp [Builder.fresh, Step.nodeCount, Prototype.nodes]
    omega
  | prototypeDirectives n =>
    obtain ⟨⟨ds, v⟩, hv, h⟩ := Option.bind_eq_some_iff.mp h
    dsimp only at h
    split at h
    · next p rest hp =>
      refine .of_some h ⟨(leaves_of_takeDirectives? hv).builder, fun a => ?_⟩
      have hcount := ((leaves_of_takeDirectives? hv).trans (leaves_protos hp)).nodes a
      have hput := count_cons_protos { v with protos := rest } v.builder a
        { p with directives := p.directives ++ ds }
      simp [Builder.fresh, Step.nodeCount, Prototype.nodes] at hcount hput ⊢
      omega
    · cases h
  | fnDef =>
    obtain ⟨⟨body, v⟩, hv, h⟩ := Option.bind_eq_some_iff.mp h
    dsimp only at h
    split at h
    · next p rest hp =>
      refine .of_some h (((leaves_of_takeExpr? hv).trans (leaves_protos hp)).did (fun _ => rfl) rfl
        (count_cons_decls { v with protos := rest } _ · _) fun a => ?_)
      simp [Builder.fresh, Step.nodeCount, Decl.nodes]
      omega
    · cases h
  | externalBlock n m =>
    obtain ⟨⟨ds, v⟩, hv, h⟩ := Option.bind_eq_some_iff.mp h
    obtain ⟨⟨ps, rest⟩, hps, h⟩ := Option.bind_eq_some_iff.mp h
    obtain ⟨d, hrun, hcount⟩ := Build.run_externalBlock ds ps v.builder
    rw [(eq_of_takeLatest? hps).1] at hrun hcount
    have hput : ({ v with protos := rest } : Workbench).putDecl (.externalBlock ds ps) =
        (some d.node.id,
          { v with builder := v.builder.after (m + 1), protos := rest, decls := d :: v.decls }) := by
      unfold putDecl
      rw [hrun]
    dsimp only at h
    rw [hput] at h
    refine .of_some h
      (((leaves_of_takeDirectives? hv).trans (leaves_takenProtos hps)).did (fun _ => rfl) rfl
        (count_cons_decls { v with protos := rest } _ · _) hcount)
  | rootExport kind name n =>
    obtain ⟨⟨ds, v⟩, hv, h⟩ := Option.bind_eq_some_iff.mp h
    refine .of_some h ((leaves_of_takeDirectives? hv).did (fun _ => rfl) rfl
      (count_cons_decls _ _ · _) fun a => ?_)
    simp [Builder.fresh, Step.nodeCount, Decl.nodes, Nat.add_comm]
  | useDecl path n =>
    obtain ⟨⟨ds, v⟩, hv, h⟩ := Option.bind_eq_some_iff.mp h
    refine .of_some h ((leaves_of_takeDirectives? hv).did (fun _ => rfl) rfl
      (count_cons_decls _ _ · _) fun a => ?_)
    simp [Builder.fresh, Step.nodeCount, Decl.nodes, Nat.add_comm]
  | block n =>
    obtain ⟨⟨es, v⟩, hv, h⟩ := Option.bind_eq_some_iff.mp h
    refine .of_some h ((leaves_of_takeExprs? hv).did (fun _ => rfl) rfl (count_cons_exprs _ _ · _)
      fun a => ?_)
    simp [Builder.fresh, Step.nodeCount, Nat.add_comm]
  | ret hasValue =>
    obtain ⟨⟨e, v⟩, hv, h⟩ := Option.bind_eq_some_iff.mp h
    refine .of_some h ((leaves_of_takeOptional? hv).did (fun _ => rfl) rfl
      (count_cons_exprs _ _ · _) fun a => ?_)
    simp [Builder.fresh, Step.nodeCount, Nat.add_comm]
  | binary op =>
    obtain ⟨⟨right, v⟩, hv, h⟩ := Option.bind_eq_some_iff.mp h
    obtain ⟨⟨left, x⟩, hx, h⟩ := Option.bind_eq_some_iff.mp h
    refine .of_some h (((leaves_of_takeExpr? hv).trans (leaves_of_takeExpr? hx)).did (fun _ => rfl)
      rfl (count_cons_exprs _ _ · _) fun a => ?_)
    simp [Builder.fresh, Step.nodeCount]
    omega
  | call name n =>
    obtain ⟨⟨es, v⟩, hv, h⟩ := Option.bind_eq_some_iff.mp h
    refine .of_some h ((leaves_of_takeExprs? hv).did (fun _ => rfl) rfl (count_cons_exprs _ _ · _)
      fun a => ?_)
    simp [Builder.fresh, Step.nodeCount, List.count_cons]
    omega
  | callExpr n =>
    obtain ⟨⟨es, v⟩, hv, h⟩ := Option.bind_eq_some_iff.mp h
    obtain ⟨⟨callee, x⟩, hx, h⟩ := Option.bind_eq_some_iff.mp h
    refine .of_some h (((leaves_of_takeExprs? hv).trans (leaves_of_takeExpr? hx)).did
      (fun _ => rfl) rfl (count_cons_exprs _ _ · _) fun a => ?_)
    simp [Builder.fresh, Step.nodeCount]
    omega
  | cast =>
    obtain ⟨⟨e, v⟩, hv, h⟩ := Option.bind_eq_some_iff.mp h
    obtain ⟨⟨t, x⟩, hx, h⟩ := Option.bind_eq_some_iff.mp h
    refine .of_some h (((leaves_of_takeExpr? hv).trans (leaves_of_takeType? hx)).did
      (fun _ => rfl) rfl (count_cons_exprs _ _ · _) fun a => ?_)
    simp [Builder.fresh, Step.nodeCount]
    omega
  | unary op =>
    obtain ⟨⟨e, v⟩, hv, h⟩ := Option.bind_eq_some_iff.mp h
    refine .of_some h ((leaves_of_takeExpr? hv).did (fun _ => rfl) rfl (count_cons_exprs _ _ · _)
      fun a => ?_)
    simp [Builder.fresh, Step.nodeCount, Nat.add_comm]
  | cond hasElse =>
    obtain ⟨⟨e, v⟩, hv, h⟩ := Option.bind_eq_some_iff.mp h
    obtain ⟨⟨t, x⟩, hx, h⟩ := Option.bind_eq_some_iff.mp h
    obtain ⟨⟨c, y⟩, hy, h⟩ := Option.bind_eq_some_iff.mp h
    refine .of_some h ((((leaves_of_takeOptional? hv).trans (leaves_of_takeExpr? hx)).trans
      (leaves_of_takeExpr? hy)).did (fun _ => rfl) rfl (count_cons_exprs _ _ · _) fun a => ?_)
    simp [Builder.fresh, Step.nodeCount]
    omega
  | file path n =>
    obtain ⟨⟨ds, rest⟩, hds, h⟩ := Option.bind_eq_some_iff.mp h
    refine .of_some h ((leaves_decls hds).did (fun _ => rfl) rfl
      (count_cons_files { w with decls := rest } _ · _) fun a => ?_)
    simp [Builder.fresh, Step.nodeCount, SourceFile.nodes, Nat.add_comm]
  | number | string | unreachable | void | symbol =>
    refine .of_some h ((Leaves.refl w).did (fun _ => rfl) rfl (count_cons_exprs _ _ · _) fun a => ?_)
    simp [Builder.fresh, Step.nodeCount]

/-! ### Runs -/

/-- Whether the finished parts of a workbench are among those of another. They may be left out and
come in any order, so that whichever part is to be used next can be the latest. -/
structure Offers (w u : Workbench) : Prop where
  builder : u.builder = w.builder
  types : u.types.Subperm w.types
  params : u.params.Subperm w.params
  directives : u.directives.Subperm w.directives
  protos : u.protos.Subperm w.protos
  exprs : u.exprs.Subperm w.exprs
  decls : u.decls.Subperm w.decls
  files : u.files.Subperm w.files

/-- Whether steps that set no ids lead from a workbench to another. Between them parts may be picked
at will. -/
inductive Leads (w : Workbench) : List Step → Workbench → Prop where
  | start : Leads w [] w
  | step {steps : List Step} {u v : Workbench} {s : Step} {i : Option NodeId}
      (h : Leads w steps u) (keeps : s.keepsIds) (does : u.step? s = some (i, v)) :
      Leads w (steps ++ [s]) v
  | pick {steps : List Step} {u v : Workbench} (h : Leads w steps u) (offers : u.Offers v) :
      Leads w steps v

theorem subperm_flatMap {α : Type} {l m : List α} (f : α → List Node) (h : l.Subperm m) :
    (l.flatMap f).Subperm (m.flatMap f) := by
  obtain ⟨k, hperm, hsub⟩ := h
  exact ⟨k.flatMap f, hperm.flatMap_right f, hsub.flatMap f⟩

theorem Offers.nodes (h : w.Offers u) : u.nodes.Subperm w.nodes := by
  have hdirectives : (u.directives.map Directive.node).Subperm (w.directives.map Directive.node) := by
    rw [List.map_eq_flatMap, List.map_eq_flatMap]
    exact subperm_flatMap _ h.directives
  exact (((((subperm_flatMap _ h.types).append (subperm_flatMap _ h.params)).append
    hdirectives).append (subperm_flatMap _ h.protos)).append (subperm_flatMap _ h.exprs)).append
    (subperm_flatMap _ h.decls) |>.append (subperm_flatMap _ h.files)

theorem Leads.cons {steps : List Step} {v : Workbench} {s : Step} {i : Option NodeId}
    (hs : s.keepsIds) (hstep : w.step? s = some (i, v)) (h : v.Leads steps u) :
    w.Leads (s :: steps) u := by
  induction h with
  | start => exact .step .start hs hstep
  | step _ keeps does ih => exact .step ih keeps does
  | pick _ offers ih => exact .pick ih offers

/-- The steps of a script lead to its outcome. -/
theorem leads_of_run? {script : List Step} {ids : List (Option NodeId)}
    (hs : ∀ s ∈ script, s.keepsIds) (h : w.run? script = some (ids, u)) : w.Leads script u := by
  induction script generalizing w ids with
  | nil =>
    obtain ⟨-, rfl⟩ := Prod.mk.inj (Option.some.inj h)
    exact .start
  | cons s script ih =>
    obtain ⟨hkeeps, hrest⟩ := List.forall_mem_cons.mp hs
    obtain ⟨⟨i, v⟩, hv, h⟩ := Option.bind_eq_some_iff.mp h
    obtain ⟨⟨is, x⟩, hx, h⟩ := Option.bind_eq_some_iff.mp h
    obtain ⟨-, rfl⟩ := Prod.mk.inj (Option.some.inj h)
    exact .cons hkeeps hv (ih hrest hx)

end Workbench

namespace Step

/-- How many nodes steps make. -/
def nodeCountAll (steps : List Step) : Nat := steps.foldl (fun n s => n + s.nodeCount) 0

/-- The position after steps: the one set last, or the start of a file. -/
def positionAfter (steps : List Step) : Position :=
  (steps.filterMap position?).getLast?.getD .start

theorem nodeCountAll_append_singleton (steps : List Step) (s : Step) :
    nodeCountAll (steps ++ [s]) = nodeCountAll steps + s.nodeCount := by
  simp [nodeCountAll]

theorem positionAfter_append_singleton (steps : List Step) (s : Step) :
    positionAfter (steps ++ [s]) = s.position?.getD (positionAfter steps) := by
  rw [positionAfter, List.filterMap_append]
  cases h : s.position? <;> simp [positionAfter, h]

/-- Positions that are set have no byte offset. -/
theorem offset_positionAfter (steps : List Step) : (positionAfter steps).offset = 0 := by
  induction steps using List.reverseRecOn with
  | nil => rfl
  | append_singleton steps s ih =>
    rw [positionAfter_append_singleton]
    cases s with
    | moveTo => rfl
    | _ => exact ih

variable {b : Builder}

theorem next_builder {s : Step} (h : b.next.toNat + s.nodeCount < 2 ^ 32) :
    (s.builder b).next.toNat = b.next.toNat + s.nodeCount := by
  cases s with
  | moveTo => rfl
  | _ => exact Builder.next_after h

theorem pos_builder (h : b.pos.offset = 0) (s : Step) :
    (s.builder b).pos = s.position?.getD b.pos := by
  cases s with
  | moveTo line column => exact congrArg (Position.mk line column) h
  | _ => exact Builder.pos_after _ _

end Step

namespace Workbench

variable {w u : Workbench} {steps : List Step} {s : Step}

/-- What holds after steps: nodes are counted up, so each has an id of its own. -/
structure Counted (steps : List Step) (w : Workbench) : Prop where
  next : w.builder.next.toNat = Step.nodeCountAll steps
  pos : w.builder.pos = Step.positionAfter steps
  lt : ∀ n ∈ w.nodes, n.id.value.toNat < Step.nodeCountAll steps
  nodup : (w.nodes.map Node.id).Nodup

theorem counted_initial : Counted [] initial :=
  ⟨rfl, rfl, fun _ h => (nomatch h), List.nodup_nil⟩

theorem Counted.pick (h : Counted steps w) (ho : w.Offers u) : Counted steps u where
  next := by rw [ho.builder, h.next]
  pos := by rw [ho.builder, h.pos]
  lt := fun n hn => h.lt n (ho.nodes.subset hn)
  nodup := by
    obtain ⟨l, hperm, hsub⟩ := ho.nodes
    exact (hperm.map Node.id).nodup_iff.mp (h.nodup.sublist (hsub.map Node.id))

/-- The nodes after a step are its own and those before. -/
theorem Did.perm (h : w.Did s u) : u.nodes.Perm (w.builder.fresh s.nodeCount ++ w.nodes) := by
  rw [List.perm_iff_count]
  intro a
  rw [List.count_append, h.nodes]

section

variable (h : Counted steps w) (hcount : Step.nodeCountAll (steps ++ [s]) < 2 ^ 32)
include h hcount

theorem Counted.ids_fresh : (w.builder.fresh s.nodeCount).map (·.id.value.toNat) =
    List.range' (Step.nodeCountAll steps) s.nodeCount := by
  rw [Step.nodeCountAll_append_singleton, ← h.next] at hcount
  rw [Builder.ids_fresh hcount, h.next]

/-- The nodes that a step makes have ids that were not given before. -/
theorem Counted.id_fresh {n : Node} (hn : n ∈ w.builder.fresh s.nodeCount) :
    Step.nodeCountAll steps ≤ n.id.value.toNat ∧
      n.id.value.toNat < Step.nodeCountAll (steps ++ [s]) := by
  have hmem := List.mem_map_of_mem (f := fun n : Node => n.id.value.toNat) hn
  rw [h.ids_fresh hcount, List.mem_range'_1] at hmem
  rwa [Step.nodeCountAll_append_singleton]

theorem Counted.step (hd : w.Did s u) : Counted (steps ++ [s]) u where
  next := by
    rw [Step.nodeCountAll_append_singleton] at hcount ⊢
    rw [hd.builder, Step.next_builder (by rw [h.next]; exact hcount), h.next]
  pos := by
    have hoffset : w.builder.pos.offset = 0 := by rw [h.pos, Step.offset_positionAfter]
    rw [hd.builder, Step.pos_builder hoffset, Step.positionAfter_append_singleton, h.pos]
  lt := by
    intro n hn
    rcases List.mem_append.mp (hd.perm.subset hn) with hn | hn
    · exact (h.id_fresh hcount hn).2
    · rw [Step.nodeCountAll_append_singleton]
      exact Nat.lt_add_right _ (h.lt n hn)
  nodup := by
    rw [(hd.perm.map Node.id).nodup_iff, List.map_append]
    refine List.Nodup.append ?_ h.nodup ?_
    · refine List.Nodup.of_map (fun i : NodeId => i.value.toNat) ?_
      rw [List.map_map]
      exact (h.ids_fresh hcount) ▸ List.nodup_range'
    · rw [List.disjoint_left]
      intro i hi hold
      obtain ⟨n, hn, rfl⟩ := List.mem_map.mp hi
      obtain ⟨m, hm, heq⟩ := List.mem_map.mp hold
      have hle := (h.id_fresh hcount hn).1
      have hlt := h.lt m hm
      rw [heq] at hlt
      exact Nat.not_lt_of_le hle hlt

end

theorem Leads.counted (h : initial.Leads steps w) (hcount : Step.nodeCountAll steps < 2 ^ 32) :
    Counted steps w := by
  induction h with
  | start => exact counted_initial
  | step h keeps does ih =>
    have hprefix := hcount
    rw [Step.nodeCountAll_append_singleton] at hprefix
    exact (ih (by omega)).step hcount (did_of_step? keeps does)
  | pick h offers ih => exact (ih hcount).pick offers

/-- Whether a node is made by the step between others that lead to a workbench. -/
def Makes (before : List Step) (s : Step) (after : List Step) (w : Workbench) (n : Node) : Prop :=
  ∃ u i v, initial.Leads before u ∧ u.step? s = some (i, v) ∧ v.Leads after w ∧
    n ∉ u.nodes ∧ n ∈ v.nodes

/-- Every node is made by one of the steps, at the position set last before it. -/
theorem Leads.exists_makes (h : initial.Leads steps w) (hcount : Step.nodeCountAll steps < 2 ^ 32)
    {n : Node} (hn : n ∈ w.nodes) : ∃ before s after, steps = before ++ s :: after ∧
      Makes before s after w n ∧ n.pos = Step.positionAfter before := by
  induction h with
  | start => cases hn
  | @step steps u v s i h keeps does ih =>
    have hprefix := hcount
    rw [Step.nodeCountAll_append_singleton] at hprefix
    have hu := h.counted (by omega)
    rcases List.mem_append.mp ((did_of_step? keeps does).perm.subset hn) with hfresh | hold
    · refine ⟨steps, s, [], rfl, ⟨u, i, v, h, does, .start, fun hmem => ?_, hn⟩, ?_⟩
      · exact Nat.not_lt_of_le (hu.id_fresh hcount hfresh).1 (hu.lt n hmem)
      · rw [Builder.pos_of_mem_fresh hfresh, hu.pos]
    · obtain ⟨before, t, after, rfl, ⟨x, j, y, hx, hstep, hy, hnot, hmem⟩, hpos⟩ :=
        ih (by omega) hold
      exact ⟨before, t, after ++ [s], by simp, ⟨x, j, y, hx, hstep, .step hy keeps does, hnot, hmem⟩,
        hpos⟩
  | pick h offers ih =>
    obtain ⟨before, t, after, hsteps, ⟨x, j, y, hx, hstep, hy, hnew⟩, hpos⟩ :=
      ih hcount (offers.nodes.subset hn)
    exact ⟨before, t, after, hsteps, ⟨x, j, y, hx, hstep, .pick hy offers, hnew⟩, hpos⟩

end Workbench

namespace Program

/-- Where no node is met twice, analysis gives a result or stops at what has no typing rule. -/
theorem analyze_of_nodup {p : Program} (h : p.ids.Nodup) (options : BuildOptions) :
    (∃ a, p.analyze options = .ok a) ∨ ∃ e, p.analyze options = .error e ∧ e.isUnsupported := by
  obtain ⟨a, ha⟩ := exists_signatures h options
  cases hrun : p.analyze options with
  | ok b => exact .inl ⟨b, rfl⟩
  | error e =>
    exact .inr ⟨e, rfl, (ensures_checkFiles ha).error e ((analyze_eq_error_iff h ha).mp hrun)⟩

end Program

namespace Workbench

variable {w : Workbench} {steps : List Step}

theorem nodes_program (w : Workbench) (entry : UInt64) :
    (w.program entry).nodes.Subperm w.nodes :=
  ((w.files.reverse_perm).flatMap_right SourceFile.nodes).subperm.trans
    (List.sublist_append_right _ _).subperm

/-- Programs that are built have distinct nodes, each with the position set last before it was made,
and can be analyzed: what stops their analysis is only what has no typing rule. -/
theorem program_of_leads (h : initial.Leads steps w) (hcount : Step.nodeCountAll steps < 2 ^ 32)
    (entry : UInt64) (options : BuildOptions) :
    ((w.program entry).nodes.map Node.id).Nodup ∧
    (∀ n ∈ (w.program entry).nodes, ∃ before s after, steps = before ++ s :: after ∧
      Makes before s after w n ∧ n.pos = Step.positionAfter before) ∧
    ((∃ a, (w.program entry).analyze options = .ok a) ∨
      ∃ e, (w.program entry).analyze options = .error e ∧ e.isUnsupported) := by
  obtain ⟨l, hperm, hsub⟩ := nodes_program w entry
  have hnodup : ((w.program entry).nodes.map Node.id).Nodup :=
    (hperm.map Node.id).nodup_iff.mp ((h.counted hcount).nodup.sublist (hsub.map Node.id))
  refine ⟨hnodup, fun n hn => h.exists_makes hcount ((nodes_program w entry).subset hn), ?_⟩
  exact Program.analyze_of_nodup (hnodup.sublist (w.program entry).ids_sublist) options

/-- Declares `put` outside, and calls it from `main`. -/
def greeting : List Step := [
  .namedType "u8", .moveTo 1 9, .pointerType .constant, .param "s", .namedType "void",
  .prototype "put" .fileOnly 1, .directive "link" "c", .moveTo 1 1, .externalBlock 1 1,
  .moveTo 3 5, .string "hello", .call "put" 1, .moveTo 2 1, .block 1, .namedType "void",
  .prototype "main" .exported 0, .fnDef, .file "main.kiln" 2]

theorem greeting_built : ∃ w, initial.Leads greeting w ∧
    (w.program 0).nodes.length = Step.nodeCountAll greeting ∧
    ((w.program 0).nodes.map Node.id).Nodup ∧
    (∀ n ∈ (w.program 0).nodes, ∃ before s after, greeting = before ++ s :: after ∧
      Makes before s after w n ∧ n.pos = Step.positionAfter before) ∧
    ((∃ a, (w.program 0).analyze .none = .ok a) ∨
      ∃ e, (w.program 0).analyze .none = .error e ∧ e.isUnsupported) := by
  have hrun : (initial.run? greeting).map (fun x => (x.2.program 0).nodes.length) =
      some (Step.nodeCountAll greeting) := by decide +kernel
  obtain ⟨⟨ids, w⟩, hw, hlength⟩ := Option.map_eq_some_iff.mp hrun
  have hleads : initial.Leads greeting w := leads_of_run? (by decide) hw
  exact ⟨w, hleads, hlength, program_of_leads hleads (by decide) 0 .none⟩

end Workbench

end Sema
