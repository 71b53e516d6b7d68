import Sema.Proofs.Live
import Sema.Proofs.Typing

/-!
What it means for the typing rules to be sound. An expression completes with values of some types, by
the ways control can take through it; the rules give it one type. Where a conditional is checked with
no expectation, only one of its branches is known to fit, so values of another type may leak.
-/

namespace Sema

section

variable {τ : Type} [BaseTypes τ] {Γ : Env τ} {ret : τ}

open BaseTypes

/-! ### Completion -/

mutual

/-- The types of the values with which an expression can complete. -/
inductive Completes (Γ : Env τ) : Expr → τ → Prop where
  | number {n : Node} {text : String} : Completes Γ (.number n text) i32
  | string {n : Node} {text : String} : Completes Γ (.string n text) stringLiteral
  | void {n : Node} : Completes Γ (.void n) void
  | binary {n : Node} {op : BinaryOp} {l r : Expr} {operand result t u : τ} :
      op.types = some (operand, result) → result ≠ unreachable → Completes Γ l t →
      Completes Γ r u → Completes Γ (.binary n op l r) result
  | unary {n : Node} {op : UnaryOp} {e : Expr} {operand result t : τ} :
      op.types = some (operand, result) → result ≠ unreachable → Completes Γ e t →
      Completes Γ (.unary n op e) result
  | call {n m : Node} {name : String} {args : List Expr} {sig : Signature τ} :
      Γ name = some sig → sig.result ≠ unreachable → AllComplete Γ args →
      Completes Γ (.call n (.symbol m name) args) sig.result
  | empty {n : Node} : Completes Γ (.block n []) BaseTypes.void
  /-- A block completes with its last statement, after all others. -/
  | block {n : Node} {before : List Expr} {last : Expr} {t : τ} :
      AllComplete Γ before → Completes Γ last t → Completes Γ (.block n (before ++ [last])) t
  | thenBranch {n : Node} {c th : Expr} {el : Option Expr} {t : τ} :
      Completes Γ th t → Completes Γ (.cond n c th el) t
  | elseBranch {n : Node} {c th el : Expr} {t : τ} :
      Completes Γ el t → Completes Γ (.cond n c th (some el)) t
  | noElse {n : Node} {c th : Expr} : Completes Γ (.cond n c th none) BaseTypes.void

/-- Whether expressions can all complete. -/
inductive AllComplete (Γ : Env τ) : List Expr → Prop where
  | nil : AllComplete Γ []
  | cons {e : Expr} {t : τ} {rest : List Expr} :
      Completes Γ e t → AllComplete Γ rest → AllComplete Γ (e :: rest)

end

/-- There are no values of the type `unreachable`. -/
theorem Completes.ne_unreachable : ∀ {e : Expr} {t : τ}, Completes Γ e t → t ≠ unreachable
  | _, _, .number => i32_ne
  | _, _, .string => stringLiteral_ne
  | _, _, .void => void_ne
  | _, _, .binary _ h _ _ => h
  | _, _, .unary _ h _ => h
  | _, _, .call _ h _ => h
  | _, _, .empty => void_ne
  | _, _, .block _ h => h.ne_unreachable
  | _, _, .thenBranch h => h.ne_unreachable
  | _, _, .elseBranch h => h.ne_unreachable
  | _, _, .noElse => void_ne

/-! ### The type of an expression -/

section

variable [DecidableEq τ] (Γ)

mutual

/-- The type of an expression, whatever is expected of it. -/
def Env.typeOf : Expr → Option τ
  | .number _ _ => some i32
  | .string _ _ => some stringLiteral
  | .void _ => some void
  | .unreachable _ | .ret _ _ => some unreachable
  | .binary _ op _ _ => op.types.map (·.2)
  | .unary _ op _ => op.types.map (·.2)
  | .call _ (.symbol _ name) _ => (Γ name).map (·.result)
  | .block _ l => typeOfBlock void l
  | .cond _ _ th _ => typeOf th
  | .call _ _ _ | .symbol _ _ | .cast _ _ _ => none

/-- The type of a block whose statements follow one of the type `last`. -/
def Env.typeOfBlock (last : τ) : List Expr → Option τ
  | [] => some last
  | e :: rest => if last = unreachable then some last else
      (typeOf e).bind fun t => typeOfBlock t rest

end

/-- The type of a branch that may be missing. -/
def Env.typeOfBranch : Option Expr → Option τ
  | none => some void
  | some e => Γ.typeOf e

/-- Whether an expression never completes by its type. -/
def Env.diverges (e : Expr) : Bool := Γ.typeOf e = some unreachable

theorem Env.typeOfBlock_unreachable : ∀ l : List Expr,
    Γ.typeOfBlock unreachable l = some unreachable
  | [] => rfl
  | _ :: _ => if_pos rfl

variable {Γ}

mutual

/-- The rules give an expression its own type. -/
theorem Checks.typeOf_eq : ∀ {E : Option τ} {e : Expr} {t : τ}, Checks Γ ret E e t →
    Γ.typeOf e = some t
  | _, _, _, .number _ => rfl
  | _, _, _, .string _ => rfl
  | _, _, _, .void _ => rfl
  | _, _, _, .unreachable => rfl
  | _, _, _, .retNothing _ => rfl
  | _, _, _, .retValue _ _ => rfl
  | _, _, _, .binary h _ _ _ => by rw [Env.typeOf, h]; rfl
  | _, _, _, .unary h _ _ => by rw [Env.typeOf, h]; rfl
  | _, _, _, .call h _ _ => by rw [Env.typeOf, h]; rfl
  | _, _, _, .block h _ => h.typeOfBlock_eq
  | _, _, _, .ifThen _ h _ => h.typeOf_eq
  | _, _, _, .ifElse _ h _ _ => h.typeOf_eq

theorem Sequence.typeOfBlock_eq : ∀ {last : τ} {l : List Expr} {t : τ}, Sequence Γ ret last l t →
    Γ.typeOfBlock last l = some t
  | _, _, _, .nil => rfl
  | _, _, _, .cons hne he hrest => by
    rw [Env.typeOfBlock, if_neg hne, he.typeOf_eq, Option.bind_some, hrest.typeOfBlock_eq]
  | _, _, _, .padding hrest => by
    rw [Env.typeOfBlock_unreachable, ← hrest.typeOfBlock_eq, Env.typeOfBlock_unreachable]

end

theorem Checks.diverges_iff {E : Option τ} {e : Expr} {t : τ} (h : Checks Γ ret E e t) :
    Γ.diverges e ↔ t = BaseTypes.unreachable := by
  rw [Env.diverges, h.typeOf_eq, decide_eq_true_iff, Option.some.injEq]

section

open List (forall_mem_append forall_mem_singleton)

mutual

/-- The rules apply to every live part. -/
theorem Checks.live : ∀ {E : Option τ} {e : Expr} {t : τ}, Checks Γ ret E e t →
    ∀ x ∈ e.live Γ.diverges, ∃ E' u, Checks Γ ret E' x u
  | E, _, _, .number hf => forall_mem_singleton.mpr ⟨E, _, .number hf⟩
  | E, _, _, .string hf => forall_mem_singleton.mpr ⟨E, _, .string hf⟩
  | E, _, _, .void hf => forall_mem_singleton.mpr ⟨E, _, .void hf⟩
  | E, _, _, .unreachable => forall_mem_singleton.mpr ⟨E, _, .unreachable⟩
  | E, _, _, .retNothing hv => forall_mem_singleton.mpr ⟨E, _, .retNothing hv⟩
  | E, _, _, .retValue hv hne =>
    forall_mem_append.mpr ⟨hv.live, forall_mem_singleton.mpr ⟨E, _, .retValue hv hne⟩⟩
  | E, _, _, .binary ho hl hr hf =>
    forall_mem_append.mpr ⟨forall_mem_append.mpr ⟨hl.live, hr.live⟩,
      forall_mem_singleton.mpr ⟨E, _, .binary ho hl hr hf⟩⟩
  | E, _, _, .unary ho he hf =>
    forall_mem_append.mpr ⟨he.live, forall_mem_singleton.mpr ⟨E, _, .unary ho he hf⟩⟩
  | E, _, _, .call hs ha hf =>
    forall_mem_append.mpr ⟨ha.live, forall_mem_singleton.mpr ⟨E, _, .call hs ha hf⟩⟩
  | E, _, _, .block hs hf =>
    forall_mem_append.mpr ⟨hs.live void_ne, forall_mem_singleton.mpr ⟨E, _, .block hs hf⟩⟩
  | E, _, _, .ifThen hc ht hf => by
    simp only [Expr.live, Expr.liveOptional, List.append_nil]
    exact forall_mem_append.mpr ⟨forall_mem_append.mpr ⟨hc.live, ht.live⟩,
      forall_mem_singleton.mpr ⟨E, _, .ifThen hc ht hf⟩⟩
  | E, _, _, .ifElse hc ht he hb =>
    forall_mem_append.mpr ⟨forall_mem_append.mpr ⟨forall_mem_append.mpr ⟨hc.live, he.live⟩, ht.live⟩,
      forall_mem_singleton.mpr ⟨E, _, .ifElse hc ht he hb⟩⟩

theorem Sequence.live : ∀ {last : τ} {l : List Expr} {t : τ}, Sequence Γ ret last l t →
    last ≠ BaseTypes.unreachable → ∀ x ∈ Expr.liveBlock Γ.diverges l, ∃ E u, Checks Γ ret E x u
  | _, _, _, .nil, _ => by simp [Expr.liveBlock]
  | _, _, _, .cons _ he hrest, _ => by
    rw [Expr.liveBlock]
    refine forall_mem_append.mpr ⟨he.live, ?_⟩
    split
    · simp
    · next hd => exact hrest.live (mt he.diverges_iff.mpr hd)
  | _, _, _, .padding _, hlast => absurd rfl hlast

theorem Arguments.live : ∀ {params : List τ} {l : List Expr}, Arguments Γ ret params l →
    ∀ x ∈ Expr.liveAll Γ.diverges l, ∃ E u, Checks Γ ret E x u
  | _, _, .nil => by simp [Expr.liveAll]
  | _, _, .cons he hrest => forall_mem_append.mpr ⟨he.live, hrest.live⟩

end

end

/-! ### Leaks -/

variable (Γ) in
/-- Whether an expression in the place of a value of the type `r` may complete with a value of another
type. This takes a conditional under no expectation: its second branch, or the missing one, has
a type that is neither `r` nor `unreachable`. The flag tells whether `r` is expected. -/
inductive Leaks : τ → Bool → Expr → Prop where
  | branch {r t : τ} {n : Node} {c th : Expr} {el : Option Expr} :
      Γ.typeOfBranch el = some t → t ≠ r → t ≠ unreachable → Leaks r false (.cond n c th el)
  | thenBranch {r : τ} {b : Bool} {n : Node} {c th : Expr} {el : Option Expr} :
      Leaks r b th → Leaks r b (.cond n c th el)
  | elseBranch {r : τ} {b : Bool} {n : Node} {c th el : Expr} :
      Leaks r b el → Leaks r b (.cond n c th (some el))
  /-- A block expects nothing of its statements. -/
  | last {r : τ} {b : Bool} {n : Node} {l : List Expr} {e : Expr} :
      l.getLast? = some e → Leaks r false e → Leaks r b (.block n l)
  /-- A statement of type `unreachable` completes after all, and the padding after it gives `void`. -/
  | padded {r : τ} {b : Bool} {n : Node} {l : List Expr} {e : Expr} :
      e ∈ l.dropLast → Γ.diverges e → r ≠ BaseTypes.void → Leaks unreachable false e →
      Leaks r b (.block n l)

omit [DecidableEq τ] in
/-- Only padding follows a statement that never completes. -/
theorem Sequence.isVoid_of_mem {l : List Expr} {t : τ} (h : Sequence Γ ret unreachable l t) :
    ∀ e ∈ l, e.isVoid := by
  induction l with
  | nil => simp
  | cons e l ih =>
    cases h with
    | cons hne _ _ => exact absurd rfl hne
    | padding hrest => exact List.forall_mem_cons.mpr ⟨rfl, ih hrest⟩

/-- How the last statement of a block is checked: like any other, or it is padding. -/
theorem Sequence.append_singleton_cases {before : List Expr} {last t : τ} {e : Expr}
    (h : Sequence Γ ret last (before ++ [e]) t) (hlast : last ≠ unreachable) :
    Checks Γ ret none e t ∨ e.isVoid ∧ ∃ seen s after, before = seen ++ s :: after ∧
      Checks Γ ret none s unreachable := by
  induction before generalizing last with
  | nil =>
    cases h with
    | cons _ he hrest =>
      cases hrest
      exact .inl he
    | padding _ => exact absurd rfl hlast
  | cons s before ih =>
    cases h with
    | @cons _ u _ _ _ _ hs hrest =>
      by_cases hu : u = unreachable
      · subst hu
        exact .inr ⟨hrest.isVoid_of_mem e (by simp), [], s, before, rfl, hs⟩
      · rcases ih hrest hu with he | ⟨hv, seen, s', after, hbefore, hs'⟩
        · exact .inl he
        · exact .inr ⟨hv, s :: seen, s', after, by rw [hbefore, List.cons_append], hs'⟩
    | padding _ => exact absurd rfl hlast

omit [DecidableEq τ] in
theorem Completes.eq_void {e : Expr} {t : τ} (h : Completes Γ e t) (he : e.isVoid) :
    t = BaseTypes.void := by
  cases e <;> cases he
  cases h
  rfl

mutual

/-- An expression that does not leak completes with values of the wanted type only. -/
theorem Completes.eq : ∀ {e : Expr} {u : τ}, Completes Γ e u → ∀ {E : Option τ} {t r : τ},
    Checks Γ ret E e t → (E = none ∨ E = some r) → (t = r ∨ t = unreachable) →
    ¬ Leaks Γ r E.isSome e → u = r
  | _, _, .number, _, _, _, hc, _, ht, _ => by
    cases hc
    exact ht.resolve_right i32_ne
  | _, _, .string, _, _, _, hc, _, ht, _ => by
    cases hc
    exact ht.resolve_right stringLiteral_ne
  | _, _, .void, _, _, _, hc, _, ht, _ => by
    cases hc
    exact ht.resolve_right void_ne
  | _, _, .binary ho hne _ _, _, _, _, hc, _, ht, _ => by
    cases hc with
    | binary ho' _ _ _ =>
      rw [ho, Option.some.injEq, Prod.mk.injEq] at ho'
      obtain ⟨-, rfl⟩ := ho'
      exact ht.resolve_right hne
  | _, _, .unary ho hne _, _, _, _, hc, _, ht, _ => by
    cases hc with
    | unary ho' _ _ =>
      rw [ho, Option.some.injEq, Prod.mk.injEq] at ho'
      obtain ⟨-, rfl⟩ := ho'
      exact ht.resolve_right hne
  | _, _, .call hs hne _, _, _, _, hc, _, ht, _ => by
    cases hc with
    | call hs' _ _ =>
      rw [hs, Option.some.injEq] at hs'
      subst hs'
      exact ht.resolve_right hne
  | _, _, .empty, _, _, _, hc, _, ht, _ => by
    cases hc with
    | block hseq _ =>
      have htype := Option.some.inj hseq.typeOfBlock_eq
      exact htype.trans (ht.resolve_right (htype ▸ void_ne))
  | _, _, .block hall hlast, _, t, r, hc, _, ht, hleak => by
    cases hc with
    | block hseq _ =>
      rcases hseq.append_singleton_cases void_ne with he | ⟨hv, seen, s, after, hbefore, hs⟩
      · exact hlast.eq he (.inl rfl) ht (mt (Leaks.last (by simp)) hleak)
      · rw [hlast.eq_void hv]
        by_contra hr
        obtain ⟨v, hsv, hsound⟩ := hall.eq s (by simp [hbefore])
        refine hsv.ne_unreachable (hsound hs (.inl rfl) (.inl rfl) fun hl => hleak ?_)
        exact .padded (by rw [List.dropLast_concat]; simp [hbefore]) (decide_eq_true hs.typeOf_eq)
          (Ne.symm hr) hl
  | _, _, .thenBranch hth, _, _, _, hc, hE, ht, hleak => by
    cases hc with
    | ifThen _ hth' _ => exact hth.eq hth' hE ht (mt Leaks.thenBranch hleak)
    | ifElse _ hth' _ _ => exact hth.eq hth' hE ht (mt Leaks.thenBranch hleak)
  | _, _, .elseBranch hel, E, _, r, hc, hE, ht, hleak => by
    cases hc with
    | @ifElse _ _ _ _ _ _ _ v _ hth' hel' _ =>
      refine hel.eq hel' hE ?_ (mt Leaks.elseBranch hleak)
      rcases hE with rfl | rfl
      · by_contra hv
        rw [not_or] at hv
        exact hleak (.branch hel'.typeOf_eq hv.1 hv.2)
      · exact Fits.some_iff.mp hel'.fits
  | _, _, .noElse, E, _, r, hc, hE, ht, hleak => by
    cases hc with
    | ifThen _ _ hf =>
      rcases hE with rfl | rfl
      · by_contra hv
        exact hleak (.branch rfl hv void_ne)
      · exact (Fits.some_iff.mp hf).resolve_right void_ne

theorem AllComplete.eq : ∀ {l : List Expr}, AllComplete Γ l → ∀ e ∈ l, ∃ u, Completes Γ e u ∧
    ∀ {E : Option τ} {t r : τ}, Checks Γ ret E e t → (E = none ∨ E = some r) →
      (t = r ∨ t = unreachable) → ¬ Leaks Γ r E.isSome e → u = r
  | _, .nil => by simp
  | _, .cons h hrest => List.forall_mem_cons.mpr
    ⟨⟨_, h, fun hc hE ht hleak => h.eq hc hE ht hleak⟩, hrest.eq⟩

end

end

end

end Sema
