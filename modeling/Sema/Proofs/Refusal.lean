import Sema.Proofs.Acceptance
import Sema.Proofs.Containment
import Sema.Proofs.Coverage

/-!
Which programs are refused. A construct without a typing rule ends the analysis where it is live, and
nothing else does when no node is met twice. The cause is the first such construct in the order of
checking; it can be told from the program alone, since what never completes can be told from its form.
-/

namespace Sema

namespace Expr

/-! ### What never completes -/

section

variable (calls : String → Bool)

mutual

/-- Whether an expression never completes, told by its form; `calls` tells the functions that never
return. -/
def neverEnds : Expr → Bool
  | .unreachable _ | .ret _ _ => true
  | .call _ (.symbol _ name) _ => calls name
  | .block _ l => neverEndsAny l
  | .cond _ _ th _ => neverEnds th
  | _ => false

/-- Whether a statement among others never completes. -/
def neverEndsAny : List Expr → Bool
  | [] => false
  | e :: rest => neverEnds e || neverEndsAny rest

end

end

/-! ### The order of checking -/

section

variable (dead : Expr → Bool)

mutual

/-- The live parts of an expression in the order in which their checks begin, where `dead` tells which
statements never complete. The else branch comes before the then branch. -/
def inOrder : Expr → List Expr
  | .block n l => .block n l :: inOrderBlock l
  | .ret n v => .ret n v :: inOrderOptional v
  | .binary n op l r => .binary n op l r :: (inOrder l ++ inOrder r)
  | .call n (.symbol m s) args => .call n (.symbol m s) args :: inOrderAll args
  | .call n c args => .call n c args :: (inOrder c ++ inOrderAll args)
  | .cast n e t => .cast n e t :: inOrder e
  | .unary n op e => .unary n op e :: inOrder e
  | .cond n c t e => .cond n c t e :: (inOrder c ++ inOrderOptional e ++ inOrder t)
  | .number n t => [.number n t]
  | .string n t => [.string n t]
  | .unreachable n => [.unreachable n]
  | .void n => [.void n]
  | .symbol n s => [.symbol n s]

def inOrderBlock : List Expr → List Expr
  | [] => []
  | e :: rest => inOrder e ++ if dead e then [] else inOrderBlock rest

def inOrderAll : List Expr → List Expr
  | [] => []
  | e :: rest => inOrder e ++ inOrderAll rest

def inOrderOptional : Option Expr → List Expr
  | none => []
  | some e => inOrder e

end

variable {dead}

theorem perm_cons_concat {α : Type} {x : α} {l m : List α} (h : l.Perm m) :
    (x :: l).Perm (m ++ [x]) :=
  (h.cons x).trans (List.perm_append_singleton x m).symm

mutual

/-- In whatever order, the live parts are the same. -/
theorem inOrder_perm_live : ∀ e : Expr, (e.inOrder dead).Perm (e.live dead)
  | .block _ l => perm_cons_concat (inOrderBlock_perm_liveBlock l)
  | .ret _ v => perm_cons_concat (inOrderOptional_perm_liveOptional v)
  | .binary _ _ l r => perm_cons_concat ((inOrder_perm_live l).append (inOrder_perm_live r))
  | .call n c args => by
    have hargs := inOrderAll_perm_liveAll args
    have hcallee := inOrder_perm_live c
    cases c with
    | symbol m s => exact perm_cons_concat hargs
    | _ => exact perm_cons_concat (hcallee.append hargs)
  | .cast _ e _ => perm_cons_concat (inOrder_perm_live e)
  | .unary _ _ e => perm_cons_concat (inOrder_perm_live e)
  | .cond _ c t e => perm_cons_concat (((inOrder_perm_live c).append
      (inOrderOptional_perm_liveOptional e)).append (inOrder_perm_live t))
  | .number _ _ => .refl _
  | .string _ _ => .refl _
  | .unreachable _ => .refl _
  | .void _ => .refl _
  | .symbol _ _ => .refl _

theorem inOrderBlock_perm_liveBlock : ∀ l : List Expr,
    (inOrderBlock dead l).Perm (liveBlock dead l)
  | [] => .refl _
  | e :: rest => by
    refine (inOrder_perm_live e).append ?_
    split
    · exact .refl _
    · exact inOrderBlock_perm_liveBlock rest

theorem inOrderAll_perm_liveAll : ∀ l : List Expr, (inOrderAll dead l).Perm (liveAll dead l)
  | [] => .refl _
  | e :: rest => (inOrder_perm_live e).append (inOrderAll_perm_liveAll rest)

theorem inOrderOptional_perm_liveOptional : ∀ e : Option Expr,
    (inOrderOptional dead e).Perm (liveOptional dead e)
  | none => .refl _
  | some e => inOrder_perm_live e

end

end

/-! ### Constructs without a rule -/

/-- What is refused about an expression itself, and where: a name that is not called, a cast, a call of
anything but a name, or an operator without a rule. -/
def refusal? : Expr → Option (String × Position)
  | .symbol n _ => some ("symbol reference", n.pos)
  | .cast n _ _ => some ("cast expression", n.pos)
  | .call _ (.symbol _ _) _ => none
  | .call _ callee _ => some ("indirect call", callee.pos)
  | .binary n op _ _ =>
      match op.rule with
      | .ok _ => none
      | .error construct => some (construct, n.pos)
  | .unary n op _ =>
      match op.rule with
      | .ok _ => none
      | .error construct => some (construct, n.pos)
  | _ => none

/-- The causes to stop that expressions of a file are, in order. -/
def refusals (path : String) (l : List Expr) : List AnalysisError :=
  l.filterMap fun e => e.refusal?.map fun r => .unsupported r.1 path r.2

theorem refusals_append (path : String) (l m : List Expr) :
    refusals path (l ++ m) = refusals path l ++ refusals path m := List.filterMap_append

theorem refusals_cons_of_none {path : String} {e : Expr} (h : e.refusal? = none) (l : List Expr) :
    refusals path (e :: l) = refusals path l := by
  rw [refusals, List.filterMap_cons, h]
  rfl

theorem refusals_cons_of_some {path : String} {e : Expr} {construct : String} {pos : Position}
    (h : e.refusal? = some (construct, pos)) (l : List Expr) :
    refusals path (e :: l) = .unsupported construct path pos :: refusals path l := by
  rw [refusals, List.filterMap_cons, h]
  rfl

theorem refusals_eq_nil_iff {path : String} {l : List Expr} :
    refusals path l = [] ↔ ∀ e ∈ l, e.refusal? = none := by
  simp [refusals, List.filterMap_eq_nil_iff]

end Expr

/-! ### Runs that stop at the first cause -/

namespace Checked

variable {α β : Type}

/-- Whether a run stops with the first of the causes, and ends with a value if there is none. -/
def Stops (x : Checked α) (l : List AnalysisError) : Prop :=
  ∀ e, x.outcome = .error e ↔ l.head? = some e

namespace Stops

variable {x : Checked α} {f : α → Checked β} {l m : List AnalysisError}

theorem of_ok {v : α} (h : x.outcome = .ok v) : x.Stops [] := by
  intro e
  rw [h]
  simp

theorem fail (e : AnalysisError) (l : List AnalysisError) : (fail e : Checked α).Stops (e :: l) := by
  intro e'
  simp [Checked.fail]

theorem exists_ok_iff (h : x.Stops l) : (∃ v, x.outcome = .ok v) ↔ l = [] := by
  rw [← List.head?_eq_none_iff, Option.eq_none_iff_forall_ne_some]
  simp only [ne_eq, ← h _]
  cases x.outcome <;> simp

theorem bind (hx : x.Stops l) (hf : ∀ v, x.outcome = .ok v → (f v).Stops m) :
    (x >>= f).Stops (l ++ m) := by
  intro e
  cases hout : x.outcome with
  | ok v =>
    rw [hx.exists_ok_iff.mp ⟨v, hout⟩, List.nil_append, ← hf v hout e, bind_of_ok hout]
  | error e' =>
    obtain ⟨r, rfl⟩ := List.head?_eq_some_iff.mp ((hx e').mp hout)
    rw [bind_eq, Checked.bind, hout]
    simp

/-- A first run that ends with a value does not count. -/
theorem bind_of_ok {v : α} (hx : x.outcome = .ok v) (hf : (f v).Stops l) : (x >>= f).Stops l := by
  refine Stops.bind (.of_ok hx) fun w hw => ?_
  obtain rfl := Except.ok.inj (hx.symm.trans hw)
  exact hf

theorem forM {f : α → Checked Unit} {g : α → List AnalysisError} : ∀ {l : List α},
    (∀ x ∈ l, (f x).Stops (g x)) → (l.forM f).Stops (l.flatMap g)
  | [], _ => .of_ok (v := ()) rfl
  | x :: l, h => by
    obtain ⟨hx, hl⟩ := List.forall_mem_cons.mp h
    exact hx.bind fun _ _ => .forM hl

end Stops

end Checked

namespace Scope

open Checked (Stops outcome_of_bind)
open Sema.Expr (neverEnds neverEndsAny inOrder inOrderBlock inOrderAll inOrderOptional refusals
  refusals_append refusals_cons_of_none refusals_cons_of_some)

variable {s : Scope} {calls : String → Bool} {ret : TypeId}

/-- Whether `calls` tells the functions that a scope sees to be of the type `unreachable`. -/
def TellsCalls (s : Scope) (calls : String → Bool) : Prop :=
  ∀ name, calls name ↔ ∃ sig, s.analysis.env s.file name = some sig ∧ sig.result = .unreachable

/-! ### Types of what never completes -/

section

theorem type_of_conclude {node : Node} {E : Option TypeId} {t u : TypeId} {b : Bool}
    (h : (s.conclude node E u).outcome = .ok t) (hu : u = .unreachable ↔ b) :
    t = .unreachable ↔ b := by
  rwa [(gives_conclude ⟨h, rfl⟩).1]

mutual

/-- An expression that can be checked has the type `unreachable` exactly when it never completes by its
form. -/
theorem type_of_check (hl : s.analysis.Linked) (hc : s.TellsCalls calls) : ∀ (e : Expr)
    {E : Option TypeId} {t : TypeId}, (s.check ret E e).outcome = .ok t →
      (t = .unreachable ↔ e.neverEnds calls)
  | .number _ _, _, _, h => type_of_conclude h (by simp [neverEnds])
  | .string _ _, _, _, h => type_of_conclude h (by simp [neverEnds])
  | .void _, _, _, h => type_of_conclude h (by simp [neverEnds])
  | .unreachable _, _, _, h => type_of_conclude h (by simp [neverEnds])
  | .symbol _ _, _, _, h => nomatch h
  | .cast _ _ _, _, _, h => nomatch h
  | .binary n op l r, E, t, h => by
    rw [check] at h
    obtain ⟨rule, hrule, h⟩ := outcome_of_bind h
    obtain ⟨_, -, h⟩ := outcome_of_bind h
    obtain ⟨_, -, h⟩ := outcome_of_bind h
    have hne : rule.result ≠ .unreachable := by
      cases op <;> cases hrule <;> decide
    exact type_of_conclude h (by simp [hne, neverEnds])
  | .unary n op e, E, t, h => by
    rw [check] at h
    obtain ⟨rule, hrule, h⟩ := outcome_of_bind h
    obtain ⟨_, -, h⟩ := outcome_of_bind h
    have hne : rule.result ≠ .unreachable := by
      cases op with
      | not => cases hrule; decide
      | _ => cases hrule
    exact type_of_conclude h (by simp [hne, neverEnds])
  | .block n l, E, t, h => by
    rw [check] at h
    obtain ⟨u, hu, h⟩ := outcome_of_bind h
    have hiff := type_of_checkBlock hl hc l hu
    exact type_of_conclude h (by simpa [neverEnds] using hiff)
  | .ret n v, E, t, h => by
    rw [check] at h
    obtain ⟨_, -, h⟩ := outcome_of_bind h
    obtain ⟨_, -, h⟩ := outcome_of_bind h
    exact type_of_conclude h (by simp [neverEnds])
  | .cond n c th el, E, t, h => by
    rw [check] at h
    obtain ⟨_, -, h⟩ := outcome_of_bind h
    obtain ⟨_, -, h⟩ := outcome_of_bind h
    obtain ⟨u, hu, h⟩ := outcome_of_bind h
    obtain ⟨_, -, h⟩ := outcome_of_bind h
    exact type_of_conclude h (type_of_check hl hc th hu)
  | .call n callee args, E, t, h => by
    cases callee with
    | symbol m name =>
      rw [check] at h
      rcases hl.env_cases s.file s.path name with ⟨hlook, henv⟩ | ⟨k, sig, hlook, henv, hsig⟩
      · rw [hlook] at h
        obtain ⟨_, -, h⟩ := outcome_of_bind h
        obtain ⟨_, -, h⟩ := outcome_of_bind h
        have hnot : calls name = false := by
          rw [← Bool.not_eq_true, hc, henv]
          simp
        exact type_of_conclude h (by simp [neverEnds, hnot])
      · have hiff : sig.result = .unreachable ↔ calls name := by
          rw [hc, henv]
          simp
        have hrest : (s.checkArgs ret (sig.params.map some) args >>= fun _ =>
            s.conclude n E sig.result).outcome = .ok t →
              (t = .unreachable ↔ (Expr.call n (.symbol m name) args).neverEnds calls) := by
          intro h
          obtain ⟨_, -, h⟩ := outcome_of_bind h
          exact type_of_conclude h hiff
        simp only [hlook, hsig] at h
        obtain ⟨_, ⟨⟩, h⟩ := outcome_of_bind h
        dsimp only at h
        split at h
        · obtain ⟨_, -, h⟩ := outcome_of_bind h
          exact hrest h
        · exact hrest h
    | _ => exact nomatch h

theorem type_of_checkBlock (hl : s.analysis.Linked) (hc : s.TellsCalls calls) : ∀ (l : List Expr)
    {last t : TypeId}, (s.checkBlock ret last l).outcome = .ok t →
      (t = .unreachable ↔ last = .unreachable ∨ neverEndsAny calls l)
  | [], last, t, h => by
    obtain rfl := Except.ok.inj h
    simp [neverEndsAny]
  | e :: rest, last, t, h => by
    rw [checkBlock] at h
    split at h
    · next hlast =>
      subst hlast
      have hrest : (s.checkBlock ret .unreachable rest).outcome = .ok t := by
        dsimp only at h
        split at h
        · obtain ⟨_, -, h⟩ := outcome_of_bind h
          exact h
        · exact h
      have hiff := type_of_checkBlock hl hc rest hrest
      simpa using hiff
    · next hlast =>
      obtain ⟨u, hu, h⟩ := outcome_of_bind h
      rw [type_of_checkBlock hl hc rest h, type_of_check hl hc e hu]
      simp [hlast, neverEndsAny]

end

end

/-! ### Causes -/

theorem stops_checkBlock_unreachable (l : List Expr) :
    (s.checkBlock ret .unreachable l).Stops [] := by
  induction l with
  | nil => exact .of_ok rfl
  | cons e rest ih =>
    rw [checkBlock, if_pos rfl]
    dsimp only
    split
    · exact .bind_of_ok rfl ih
    · exact ih

theorem outcome_compare {pos : Position} {E : Option TypeId} {t : TypeId}
    (hE : ∀ e ∈ E, s.analysis.types.Has e) (ht : s.analysis.types.Has t) :
    (s.compare pos E t).outcome = .ok () := (alike_compare hE ht).outcome

theorem outcome_conclude {node : Node} {E : Option TypeId} {t : TypeId}
    (hE : ∀ e ∈ E, s.analysis.types.Has e) (ht : s.analysis.types.Has t) :
    (s.conclude node E t).outcome = .ok t := by
  rw [conclude, Checked.bind_of_ok (outcome_compare hE ht)]
  rfl

theorem outcome_concludeReturn {node : Node} {t : TypeId} (h : s.Safe)
    (hret : s.analysis.types.Has ret) (ht : s.analysis.types.Has t) :
    (s.concludeReturn node ret t).outcome = .ok () := by
  unfold concludeReturn
  split
  · exact outcome_compare hret.forall_mem_some (h.types.has_builtin (by decide))
  · exact outcome_compare hret.forall_mem_some ht

section

mutual

/-- Checking an expression stops with the first cause among its live parts. -/
theorem stops_check (h : s.Safe) (hc : s.TellsCalls calls) (hret : s.analysis.types.Has ret) :
    ∀ (e : Expr) {E : Option TypeId}, (∀ t ∈ E, s.analysis.types.Has t) →
      (s.check ret E e).Stops (refusals s.path (inOrder (neverEnds calls) e))
  | .number _ _, _, hE => .of_ok (outcome_conclude hE (h.types.has_builtin (by decide)))
  | .string _ _, _, hE => .of_ok (outcome_conclude hE (h.types.has_builtin (by decide)))
  | .unreachable _, _, hE => .of_ok (outcome_conclude hE (h.types.has_builtin (by decide)))
  | .void _, _, hE => .of_ok (outcome_conclude hE (h.types.has_builtin (by decide)))
  | .symbol _ _, _, _ => .fail _ _
  | .cast _ _ _, _, _ => .fail _ _
  | .binary n op l r, E, hE => by
    rw [check, inOrder]
    cases hop : op.rule with
    | error c =>
      rw [refusals_cons_of_some (by rw [Expr.refusal?, hop])]
      exact .fail _ _
    | ok rule =>
      have hrule := BinaryOp.rule_builtin hop
      have hoperand := (h.types.has_builtin hrule.1).forall_mem_some
      rw [refusals_cons_of_none (by rw [Expr.refusal?, hop]), refusals_append]
      refine .bind_of_ok rfl ((stops_check h hc hret l hoperand).bind fun _ _ => ?_)
      rw [← List.append_nil (refusals _ _)]
      refine (stops_check h hc hret r hoperand).bind fun _ _ => ?_
      exact .of_ok (outcome_conclude hE (h.types.has_builtin hrule.2))
  | .unary n op e, E, hE => by
    rw [check, inOrder]
    cases hop : op.rule with
    | error c =>
      rw [refusals_cons_of_some (by rw [Expr.refusal?, hop])]
      exact .fail _ _
    | ok rule =>
      have hrule := UnaryOp.rule_builtin hop
      have hoperand := (h.types.has_builtin hrule.1).forall_mem_some
      rw [refusals_cons_of_none (by rw [Expr.refusal?, hop]), ← List.append_nil (refusals _ _)]
      refine .bind_of_ok rfl ((stops_check h hc hret e hoperand).bind fun _ _ => ?_)
      exact .of_ok (outcome_conclude hE (h.types.has_builtin hrule.2))
  | .block n l, E, hE => by
    have hvoid : s.analysis.types.Has .void := h.types.has_builtin (by decide)
    rw [check, inOrder, refusals_cons_of_none rfl, ← List.append_nil (refusals _ _)]
    refine (stops_checkBlock h hc hret l hvoid (by decide)).bind fun t ht => ?_
    exact .of_ok (outcome_conclude hE ((ensures_checkBlock h hret l hvoid).value t ht))
  | .ret n v, E, hE => by
    have hsome := hret.forall_mem_some
    rw [check, inOrder, refusals_cons_of_none rfl, ← List.append_nil (refusals _ _)]
    refine (stops_checkOptional h hc hret v hsome).bind fun t ht => ?_
    have hvalue : s.analysis.types.Has (t.getD .void) :=
      TypeTable.has_getD ((ensures_checkOptional h hret v hsome).value t ht)
        (h.types.has_builtin (by decide))
    refine .bind_of_ok (outcome_concludeReturn h hret hvalue) ?_
    exact .of_ok (outcome_conclude hE (h.types.has_builtin (by decide)))
  | .cond n c th el, E, hE => by
    have hbool : ∀ t ∈ some TypeId.bool, s.analysis.types.Has t :=
      TypeTable.Has.forall_mem_some (h.types.has_builtin (by decide))
    rw [check, inOrder, refusals_cons_of_none rfl, refusals_append, refusals_append,
      List.append_assoc]
    refine (stops_check h hc hret c hbool).bind fun _ _ => ?_
    refine (stops_checkOptional h hc hret el hE).bind fun u hu => ?_
    rw [← List.append_nil (refusals _ _)]
    refine (stops_check h hc hret th hE).bind fun t ht => ?_
    have hthen : s.analysis.types.Has t := (ensures_check h hret th hE).value t ht
    have helse : s.analysis.types.Has (u.getD .void) :=
      TypeTable.has_getD ((ensures_checkOptional h hret el hE).value u hu)
        (h.types.has_builtin (by decide))
    refine .bind_of_ok (outcome_compare ?_ helse) (.of_ok (outcome_conclude hE hthen))
    split
    · exact hthen.forall_mem_some
    · exact hE
  | .call n callee args, E, hE => by
    cases callee with
    | symbol m name =>
      rw [check, inOrder, refusals_cons_of_none rfl]
      rcases h.linked.env_cases s.file s.path name with ⟨hl, -⟩ | ⟨k, sig, hl, henv, hsig⟩
      · rw [hl, ← List.append_nil (refusals _ _)]
        refine .bind_of_ok rfl ((stops_checkArgs h hc hret args (by simp)).bind fun _ _ => ?_)
        exact .of_ok (outcome_conclude hE (h.types.has_builtin (by decide)))
      · obtain ⟨hparams, hresult⟩ := h.signatures name sig henv
        have hargs : ∀ p ∈ sig.params.map some, ∀ t ∈ p, s.analysis.types.Has t := by
          simpa using hparams
        have hrest : (s.checkArgs ret (sig.params.map some) args >>= fun _ =>
            s.conclude n E sig.result).Stops
              (refusals s.path (inOrderAll (neverEnds calls) args)) := by
          rw [← List.append_nil (refusals _ _)]
          exact (stops_checkArgs h hc hret args hargs).bind fun _ _ =>
            .of_ok (outcome_conclude hE hresult)
        simp only [hl, hsig]
        refine .bind_of_ok rfl ?_
        dsimp only
        split
        · exact .bind_of_ok rfl hrest
        · exact hrest
    | _ => exact .fail _ _

theorem stops_checkOptional (h : s.Safe) (hc : s.TellsCalls calls)
    (hret : s.analysis.types.Has ret) : ∀ (e : Option Expr) {E : Option TypeId},
    (∀ t ∈ E, s.analysis.types.Has t) →
      (s.checkOptional ret E e).Stops (refusals s.path (inOrderOptional (neverEnds calls) e))
  | none, _, _ => .of_ok rfl
  | some e, _, hE => by
    rw [← List.append_nil (refusals _ _)]
    exact (stops_check h hc hret e hE).bind fun _ _ => .of_ok rfl

/-- Statements are checked up to the first that never completes. -/
theorem stops_checkBlock (h : s.Safe) (hc : s.TellsCalls calls) (hret : s.analysis.types.Has ret) :
    ∀ (l : List Expr) {last : TypeId}, s.analysis.types.Has last → last ≠ .unreachable →
      (s.checkBlock ret last l).Stops (refusals s.path (inOrderBlock (neverEnds calls) l))
  | [], _, _, _ => .of_ok rfl
  | e :: rest, last, hlast, hne => by
    rw [checkBlock, if_neg hne, inOrderBlock, refusals_append]
    refine (stops_check h hc hret e (by simp)).bind fun t ht => ?_
    have htype := type_of_check h.linked hc e ht
    by_cases hdead : e.neverEnds calls
    · rw [if_pos hdead, htype.mpr hdead]
      exact stops_checkBlock_unreachable rest
    · rw [if_neg hdead]
      have hthas := (ensures_check h hret e (by simp)).value t ht
      exact stops_checkBlock h hc hret rest hthas (mt htype.mp hdead)

theorem stops_checkArgs (h : s.Safe) (hc : s.TellsCalls calls) (hret : s.analysis.types.Has ret) :
    ∀ (l : List Expr) {params : List (Option TypeId)},
      (∀ p ∈ params, ∀ t ∈ p, s.analysis.types.Has t) →
        (s.checkArgs ret params l).Stops (refusals s.path (inOrderAll (neverEnds calls) l))
  | [], _, _ => .of_ok rfl
  | e :: rest, params, hp => by
    rw [checkArgs, inOrderAll, refusals_append]
    refine (stops_check h hc hret e (TypeTable.has_head?_join hp)).bind fun _ _ => ?_
    exact stops_checkArgs h hc hret rest fun p hpm => hp p (List.mem_of_mem_tail hpm)

end

end

/-! ### Declarations -/

theorem stops_checkDefinition (h : s.Safe) (hc : s.TellsCalls calls) {d : FnDef}
    (hskip : s.analysis.notes.isSkipped d.node.id = false)
    (hret : s.analysis.Resolves d.proto.returnType) :
    (s.checkDefinition d).Stops (refusals s.path (d.body.inOrder (neverEnds calls))) := by
  obtain ⟨r, hr, hhas, -⟩ := hret.resolvedType?
  rw [checkDefinition, hskip, if_neg Bool.false_ne_true, resolvedType, hr,
    ← List.append_nil (refusals _ _)]
  refine .bind_of_ok rfl ?_
  exact (stops_check h hc hhas d.body hhas.forall_mem_some).bind fun _ _ => .of_ok (v := ()) rfl

end Scope

/-! ### Programs -/

namespace Program

variable {p : Program} {options : BuildOptions} {a : Analysis}

/-- Whether an expression of a file never completes, told by its form and by the functions of the
program that are declared to return `unreachable`. -/
def neverEnds (p : Program) (file : Nat) : Expr → Bool :=
  Expr.neverEnds fun name =>
    (Function.visible file name p.functions).any (·.proto.returnType.ty = .unreachable)

/-- The causes to refuse a program, in the order of checking. -/
def refusals (p : Program) : List AnalysisError :=
  p.kept.flatMap fun x => Expr.refusals x.1.path (x.2.body.inOrder (p.neverEnds x.1.index))

/-- The functions that never return are those that are declared so. -/
theorem tellsCalls
    (h : (Analysis.initial options).readFiles p.entry.toNat 0 p.files = .ok a) (file : Nat)
    (path : String) : Scope.TellsCalls ⟨a, file, path⟩ fun name =>
      (Function.visible file name p.functions).any (·.proto.returnType.ty = .unreachable) := by
  obtain ⟨hfiled, hruns⟩ := signatures_ok h
  intro name
  have hlookup := hfiled.lookupFunction_bind file name
  rw [functions_eq hruns] at hlookup
  have hresult : ∀ {f : Function} {i : TypeId}, Function.visible file name p.functions = some f →
      a.notes.resolvedType? f.proto.returnType.node.id = some i →
        (i = .unreachable ↔ f.proto.returnType.ty = .unreachable) := by
    intro f i hf hi
    have hmem : f ∈ a.functions := functions_eq hruns ▸ Function.mem_of_visible hf
    exact (hfiled.sound.resolves hmem f.proto.returnType_mem_types).eq_unreachable_iff hi
  rw [Option.any_eq_true]
  simp only [decide_eq_true_eq]
  constructor
  · rintro ⟨f, hf, hty⟩
    obtain ⟨k, hk, hfun⟩ := Option.bind_eq_some_iff.mp (hlookup.trans hf)
    rcases hfiled.linked.env_cases file path name with ⟨hnone, -⟩ | ⟨_, sig, -, henv, -⟩
    · rw [hnone] at hk
      cases hk
    · obtain ⟨g, hg, -, hres⟩ := Analysis.env_eq_some_iff.mp henv
      obtain rfl : f = g := Option.some.inj (hf.symm.trans (hlookup.symm.trans hg))
      exact ⟨sig, henv, (hresult hf hres).mpr hty⟩
  · rintro ⟨sig, henv, hsig⟩
    obtain ⟨f, hf, -, hres⟩ := Analysis.env_eq_some_iff.mp henv
    rw [hlookup] at hf
    exact ⟨f, hf, (hresult hf hres).mp hsig⟩

section

variable (hids : p.ids.Nodup)
  (h : (Analysis.initial options).readFiles p.entry.toNat 0 p.files = .ok a)
include hids h

/-- A declaration is refused for its body, if this is checked. -/
theorem stops_checkDecl {r : Reading} (hr : r ∈ p.readings) :
    ((Scope.ofReading a r).checkDecl r.decl).Stops (r.kept.flatMap fun d =>
      Expr.refusals r.context.path (d.body.inOrder (p.neverEnds r.context.index))) := by
  obtain ⟨hfiled, hruns⟩ := signatures_ok h
  cases hdecl : r.decl with
  | fnDef d =>
    rcases Reading.mem_redefined_or_mem_kept hdecl with hd | hd
    · have hnil : r.kept = [] :=
        List.eq_nil_iff_forall_not_mem.mpr fun _ => Reading.not_mem_kept_of_mem_redefined hd
      have hskip : (Scope.ofReading a r).analysis.notes.isSkipped d.node.id :=
        isSkipped_of_redefined hruns hr d hd
      rw [hnil, Scope.checkDecl, Scope.checkDefinition, if_pos hskip]
      exact .of_ok (v := ()) rfl
    · have hskip := not_isSkipped_of_kept hids hruns hfiled.sound.distinct hr d hd
      have hmem : Function.defined d.proto d.node.id r.context.index ∈ a.functions :=
        mem_functions_of_not_skipped hruns (hdecl ▸ mem_decls_of_mem_readings hr) hskip
      rw [Reading.kept_eq_of_mem hd, List.flatMap_singleton]
      exact Scope.stops_checkDefinition (Scope.safe_of_filed hfiled _ _) (tellsCalls h _ _) hskip
        (hfiled.sound.resolves hmem d.proto.returnType_mem_types)
  | externalBlock b =>
    rw [Reading.kept, hdecl]
    exact .of_ok (v := ()) rfl
  | rootExport e =>
    rw [Reading.kept, hdecl]
    exact .of_ok (v := ()) rfl
  | use u =>
    rw [Reading.kept, hdecl]
    exact .of_ok (Checked.outcome_forM_iff.mpr fun _ _ => rfl)

theorem stops_checkFiles : (a.checkFiles 0 p.files).Stops p.refusals := by
  rw [checkFiles_eq, refusals, kept, List.flatMap_assoc]
  refine .forM fun r hr => ?_
  rw [List.flatMap_map]
  exact stops_checkDecl hids h hr

/-- Where no node is met twice, the bodies decide whether there is a result. -/
theorem analyze_eq_error_iff {e : AnalysisError} :
    p.analyze options = .error e ↔ (a.checkFiles 0 p.files).outcome = .error e := by
  obtain ⟨notes, hnotes⟩ := recordAll_ok (signatures_ok h).2 hids
  simp only [analyze, Analysis.absorb, h, bind_eq_error_iff]
  simp [hnotes, pure, Except.pure]

end

/-- What ends an analysis, and what does not. Where no node is met twice there is a result exactly when
no live part of a body that is checked lacks a rule; else the cause is the first such part in the order
of checking. What never completes by its form is what is given the type `unreachable`. -/
theorem analyze_refuses (p : Program) (options : BuildOptions) (h : p.ids.Nodup) :
    ((∃ a, p.analyze options = .ok a) ↔ ∀ c d, (c, Decl.fnDef d) ∈ p.decls →
      (c, d) ∉ p.redefinitions → ∀ e ∈ d.body.live (p.neverEnds c.index), e.refusal? = none) ∧
    (∀ e, p.analyze options = .error e ↔ p.refusals.head? = some e) ∧
    ∀ a, (Analysis.initial options).readFiles p.entry.toNat 0 p.files = .ok a →
      ∀ (file : Nat) (path : String) (ret : TypeId) (E : Option TypeId) (e : Expr) (t : TypeId),
        (Scope.check ⟨a, file, path⟩ ret E e).outcome = .ok t →
          (t = .unreachable ↔ p.neverEnds file e) := by
  have herror : ∀ e, p.analyze options = .error e ↔ p.refusals.head? = some e := by
    intro e
    obtain ⟨a, ha⟩ := exists_signatures h options
    rw [analyze_eq_error_iff h ha]
    exact stops_checkFiles h ha e
  refine ⟨?_, herror, fun a ha file path ret E e t ht => ?_⟩
  · have hok : (∃ a, p.analyze options = .ok a) ↔ p.refusals = [] := by
      rw [← List.head?_eq_none_iff, Option.eq_none_iff_forall_ne_some]
      simp only [ne_eq, ← herror]
      cases p.analyze options <;> simp
    rw [hok, refusals, List.flatMap_eq_nil_iff, Prod.forall]
    refine forall₂_congr fun c d => ?_
    rw [mem_kept_iff_not_mem_redefinitions h, Expr.refusals_eq_nil_iff, and_imp]
    simp only [(Expr.inOrder_perm_live d.body).mem_iff]
  · exact Scope.type_of_check (signatures_ok ha).1.linked (tellsCalls ha file path) e ht

/-- `{ if (1) y else 2 * 3; return; x }`. -/
def unruled : Expr :=
  .block (.numbered 40) [
    .cond (.numbered 41) (.number (.numbered 42) "1") (.symbol (.numbered 43) "y")
      (some (.binary (.numbered 44) .mul (.number (.numbered 45) "2") (.number (.numbered 46) "3"))),
    .ret (.numbered 47) none,
    .symbol (.numbered 48) "x"]

/-- The sample program with such a body of `main`. -/
def sampleUnruled : Program where
  files := sample.files.modify 0 fun f => { f with
    decls := f.decls.set 2 (.fnDef { FnDef.sample with body := unruled }) }
  entry := 0

/-- The else branch is the first to be refused, though it comes last, and the name behind `return` is
not refused at all. -/
theorem sampleUnruled_refused :
    sampleUnruled.refusals = [.unsupported "multiplication" "main.kiln" .start,
      .unsupported "symbol reference" "main.kiln" .start] ∧
    sampleUnruled.analyze .none = .error (.unsupported "multiplication" "main.kiln" .start) := by
  have hrefusals : sampleUnruled.refusals = [.unsupported "multiplication" "main.kiln" .start,
      .unsupported "symbol reference" "main.kiln" .start] := by
    decide +kernel
  refine ⟨hrefusals, ((analyze_refuses sampleUnruled .none (by decide)).2.1 _).mpr ?_⟩
  rw [hrefusals]
  rfl

end Program

end Sema
