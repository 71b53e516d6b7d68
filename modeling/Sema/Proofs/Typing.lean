import Mathlib.Data.List.Forall2
import Mathlib.Data.Option.Basic
import Sema.Operator
import Sema.Proofs.Ty

/-!
The typing rules of bodies. Types enter the rules by a few names and by being equal, nothing else, so
they are stated over any type of types: over `Ty` they tell what a program means, over handles what
the checker computes, and a derivation can be carried from one to the other.
-/

namespace Sema

/-- The types that the rules name. What never completes has a type of its own. -/
class BaseTypes (τ : Type) where
  void : τ
  bool : τ
  i32 : τ
  unreachable : τ
  stringLiteral : τ
  void_ne : void ≠ unreachable
  i32_ne : i32 ≠ unreachable
  stringLiteral_ne : stringLiteral ≠ unreachable

instance : BaseTypes TypeId :=
  ⟨.void, .bool, .i32, .unreachable, .stringLiteral, by decide, by decide, by decide⟩

instance : BaseTypes Ty :=
  ⟨.void, .bool, .i32, .unreachable, .stringLiteral, by decide, by decide, by decide⟩

/-- The types of a function. -/
structure Signature (τ : Type) where
  params : List τ
  result : τ

/-- What the names in a body stand for. -/
abbrev Env (τ : Type) := String → Option (Signature τ)

section

variable {τ : Type} [BaseTypes τ]

open BaseTypes

/-- The operand and the result type of a binary operator that has a rule. -/
def BinaryOp.types : BinaryOp → Option (τ × τ)
  | .boolOr | .boolAnd => some (bool, bool)
  | .equal | .notEqual | .less | .greater | .lessOrEqual | .greaterOrEqual => some (i32, bool)
  | .add | .sub => some (i32, i32)
  | .bitOr | .bitXor | .bitAnd | .shiftLeft | .shiftRight | .mul | .div | .mod => none

/-- The operand and the result type of a unary operator that has a rule. -/
def UnaryOp.types : UnaryOp → Option (τ × τ)
  | .not => some (bool, bool)
  | .bitNot | .negate => none

/-- Whether a type is accepted under an expectation: what never completes fits everywhere. -/
def Fits (expected : Option τ) (t : τ) : Prop :=
  expected = none ∨ expected = some t ∨ t = unreachable

mutual

/-- The rules of expressions, in a function that returns `ret`. -/
inductive Checks (Γ : Env τ) (ret : τ) : Option τ → Expr → τ → Prop where
  | number {E : Option τ} {n : Node} {text : String} :
      Fits E i32 → Checks Γ ret E (.number n text) i32
  | string {E : Option τ} {n : Node} {text : String} :
      Fits E stringLiteral → Checks Γ ret E (.string n text) stringLiteral
  | void {E : Option τ} {n : Node} :
      Fits E void → Checks Γ ret E (.void n) void
  | unreachable {E : Option τ} {n : Node} :
      Checks Γ ret E (.unreachable n) unreachable
  | binary {E : Option τ} {n : Node} {op : BinaryOp} {l r : Expr} {operand result t u : τ} :
      op.types = some (operand, result) → Checks Γ ret (some operand) l t →
      Checks Γ ret (some operand) r u → Fits E result → Checks Γ ret E (.binary n op l r) result
  | unary {E : Option τ} {n : Node} {op : UnaryOp} {e : Expr} {operand result t : τ} :
      op.types = some (operand, result) → Checks Γ ret (some operand) e t → Fits E result →
      Checks Γ ret E (.unary n op e) result
  | call {E : Option τ} {n m : Node} {name : String} {args : List Expr} {sig : Signature τ} :
      Γ name = some sig → Arguments Γ ret sig.params args → Fits E sig.result →
      Checks Γ ret E (.call n (.symbol m name) args) sig.result
  | block {E : Option τ} {n : Node} {statements : List Expr} {t : τ} :
      Sequence Γ ret void statements t → Fits E t → Checks Γ ret E (.block n statements) t
  /-- A function that returns no value. -/
  | retNothing {E : Option τ} {n : Node} :
      ret = void → Checks Γ ret E (.ret n none) unreachable
  /-- A value that never completes cannot be returned. -/
  | retValue {E : Option τ} {n : Node} {value : Expr} {t : τ} :
      Checks Γ ret (some ret) value t → t ≠ unreachable →
      Checks Γ ret E (.ret n (some value)) unreachable
  /-- The missing branch has the type `void`. -/
  | ifThen {E : Option τ} {n : Node} {c th : Expr} {t u : τ} :
      Checks Γ ret (some bool) c u → Checks Γ ret E th t → Fits E void →
      Checks Γ ret E (.cond n c th none) t
  /-- With no expectation the second branch is held against the first, if that completes. -/
  | ifElse {E : Option τ} {n : Node} {c th el : Expr} {t u v : τ} :
      Checks Γ ret (some bool) c u → Checks Γ ret E th t → Checks Γ ret E el v →
      (E = none → t = unreachable ∨ Fits (some t) v) → Checks Γ ret E (.cond n c th (some el)) t

/-- The rules of statements that follow one of the type `last`. -/
inductive Sequence (Γ : Env τ) (ret : τ) : τ → List Expr → τ → Prop where
  | nil {last : τ} : Sequence Γ ret last [] last
  | cons {last t u : τ} {e : Expr} {rest : List Expr} :
      last ≠ unreachable → Checks Γ ret none e t → Sequence Γ ret t rest u →
      Sequence Γ ret last (e :: rest) u
  /-- After a statement that never completes only padding may follow. -/
  | padding {n : Node} {rest : List Expr} {u : τ} :
      Sequence Γ ret unreachable rest u → Sequence Γ ret unreachable (.void n :: rest) u

/-- The rules of arguments, one for each parameter. -/
inductive Arguments (Γ : Env τ) (ret : τ) : List τ → List Expr → Prop where
  | nil : Arguments Γ ret [] []
  | cons {p t : τ} {params : List τ} {e : Expr} {args : List Expr} :
      Checks Γ ret (some p) e t → Arguments Γ ret params args →
      Arguments Γ ret (p :: params) (e :: args)

end

/-! ### Expectations -/

theorem Fits.none (t : τ) : Fits none t := .inl rfl

theorem Fits.unreachable (E : Option τ) : Fits E (BaseTypes.unreachable : τ) := .inr (.inr rfl)

theorem Fits.some_iff {e t : τ} : Fits (some e) t ↔ t = e ∨ t = BaseTypes.unreachable := by
  simp [Fits, eq_comm]

/-- The type of an expression fits the expectation under which it is checked. -/
theorem Checks.fits {Γ : Env τ} {ret : τ} : ∀ {E : Option τ} {e : Expr} {t : τ},
    Checks Γ ret E e t → Fits E t
  | _, _, _, .number h => h
  | _, _, _, .string h => h
  | _, _, _, .void h => h
  | _, _, _, .unreachable => .unreachable _
  | _, _, _, .binary _ _ _ h => h
  | _, _, _, .unary _ _ h => h
  | _, _, _, .call _ _ h => h
  | _, _, _, .block _ h => h
  | _, _, _, .retNothing _ => .unreachable _
  | _, _, _, .retValue _ _ => .unreachable _
  | _, _, _, .ifThen _ h _ => h.fits
  | _, _, _, .ifElse _ h _ _ => h.fits

end

/-! ### From one type of types to another -/

/-- Whether types stand for each other: the named ones do, and equal ones for equal ones. -/
structure Translation {τ σ : Type} [BaseTypes τ] [BaseTypes σ] (R : τ → σ → Prop) : Prop where
  void : R BaseTypes.void BaseTypes.void
  bool : R BaseTypes.bool BaseTypes.bool
  i32 : R BaseTypes.i32 BaseTypes.i32
  unreachable : R BaseTypes.unreachable BaseTypes.unreachable
  stringLiteral : R BaseTypes.stringLiteral BaseTypes.stringLiteral
  eq_iff : ∀ {t u x y}, R t x → R u y → (t = u ↔ x = y)

/-- Whether every function known to `Γ` is known to `Δ` by types that stand for its types. -/
def Env.Within {τ σ : Type} (R : τ → σ → Prop) (Γ : Env τ) (Δ : Env σ) : Prop :=
  ∀ name f, Γ name = some f →
    ∃ g, Δ name = some g ∧ List.Forall₂ R f.params g.params ∧ R f.result g.result

section

variable {τ σ : Type} [BaseTypes τ] [BaseTypes σ] {R : τ → σ → Prop} {Γ : Env τ} {Δ : Env σ}
  {ret : τ} {ret' : σ}

theorem Translation.symm (h : Translation R) : Translation (fun x t => R t x) :=
  ⟨h.void, h.bool, h.i32, h.unreachable, h.stringLiteral, fun hx hy => (h.eq_iff hx hy).symm⟩

theorem Translation.binary (h : Translation R) {op : BinaryOp} {o r : τ}
    (ho : op.types = some (o, r)) : ∃ o' r', op.types = some (o', r') ∧ R o o' ∧ R r r' := by
  cases op <;> simp only [BinaryOp.types, Option.some.injEq, Prod.mk.injEq, reduceCtorEq] at ho
  all_goals
    obtain ⟨rfl, rfl⟩ := ho
    exact ⟨_, _, rfl, by first | exact h.bool | exact h.i32, by first | exact h.bool | exact h.i32⟩

theorem Translation.unary (h : Translation R) {op : UnaryOp} {o r : τ}
    (ho : op.types = some (o, r)) : ∃ o' r', op.types = some (o', r') ∧ R o o' ∧ R r r' := by
  cases op <;> simp only [UnaryOp.types, Option.some.injEq, Prod.mk.injEq, reduceCtorEq] at ho
  obtain ⟨rfl, rfl⟩ := ho
  exact ⟨_, _, rfl, h.bool, h.bool⟩

theorem Translation.fits (h : Translation R) {E : Option τ} {E' : Option σ} {t : τ} {x : σ}
    (hE : Option.Rel R E E') (ht : R t x) (hf : Fits E t) : Fits E' x := by
  cases hE with
  | none => exact .none x
  | some he =>
    rw [Fits.some_iff] at hf ⊢
    exact hf.imp (h.eq_iff ht he).mp (h.eq_iff ht h.unreachable).mp

mutual

/-- A derivation is carried over rule by rule. -/
theorem Checks.transfer (hR : Translation R) (hΓ : Γ.Within R Δ) (hret : R ret ret') :
    ∀ {E : Option τ} {E' : Option σ} {e : Expr} {t : τ}, Checks Γ ret E e t → Option.Rel R E E' →
      ∃ x, R t x ∧ Checks Δ ret' E' e x
  | _, _, _, _, .number hf, hE => ⟨_, hR.i32, .number (hR.fits hE hR.i32 hf)⟩
  | _, _, _, _, .string hf, hE =>
    ⟨_, hR.stringLiteral, .string (hR.fits hE hR.stringLiteral hf)⟩
  | _, _, _, _, .void hf, hE => ⟨_, hR.void, .void (hR.fits hE hR.void hf)⟩
  | _, _, _, _, .unreachable, _ => ⟨_, hR.unreachable, .unreachable⟩
  | _, _, _, _, .binary ho hl hr hf, hE => by
    obtain ⟨o, x, ho', hoo, hx⟩ := hR.binary ho
    obtain ⟨_, -, hl'⟩ := hl.transfer hR hΓ hret (.some hoo)
    obtain ⟨_, -, hr'⟩ := hr.transfer hR hΓ hret (.some hoo)
    exact ⟨x, hx, .binary ho' hl' hr' (hR.fits hE hx hf)⟩
  | _, _, _, _, .unary ho he hf, hE => by
    obtain ⟨o, x, ho', hoo, hx⟩ := hR.unary ho
    obtain ⟨_, -, he'⟩ := he.transfer hR hΓ hret (.some hoo)
    exact ⟨x, hx, .unary ho' he' (hR.fits hE hx hf)⟩
  | _, _, _, _, .call hs ha hf, hE => by
    obtain ⟨g, hg, hparams, hres⟩ := hΓ _ _ hs
    exact ⟨_, hres, .call hg (ha.transfer hR hΓ hret hparams) (hR.fits hE hres hf)⟩
  | _, _, _, _, .block hs hf, hE => by
    obtain ⟨x, hx, hs'⟩ := hs.transfer hR hΓ hret hR.void
    exact ⟨x, hx, .block hs' (hR.fits hE hx hf)⟩
  | _, _, _, _, .retNothing hv, _ =>
    ⟨_, hR.unreachable, .retNothing ((hR.eq_iff hret hR.void).mp hv)⟩
  | _, _, _, _, .retValue hv hne, _ => by
    obtain ⟨x, hx, hv'⟩ := hv.transfer hR hΓ hret (.some hret)
    exact ⟨_, hR.unreachable, .retValue hv' (mt (hR.eq_iff hx hR.unreachable).mpr hne)⟩
  | _, _, _, _, .ifThen hc ht hf, hE => by
    obtain ⟨_, -, hc'⟩ := hc.transfer hR hΓ hret (.some hR.bool)
    obtain ⟨x, hx, ht'⟩ := ht.transfer hR hΓ hret hE
    exact ⟨x, hx, .ifThen hc' ht' (hR.fits hE hR.void hf)⟩
  | _, _, _, _, .ifElse hc ht he hbranch, hE => by
    obtain ⟨_, -, hc'⟩ := hc.transfer hR hΓ hret (.some hR.bool)
    obtain ⟨x, hx, ht'⟩ := ht.transfer hR hΓ hret hE
    obtain ⟨y, hy, he'⟩ := he.transfer hR hΓ hret hE
    refine ⟨x, hx, .ifElse hc' ht' he' fun hE' => ?_⟩
    subst hE'
    cases hE with
    | none =>
      exact (hbranch rfl).imp (hR.eq_iff hx hR.unreachable).mp (hR.fits (.some hx) hy)

theorem Sequence.transfer (hR : Translation R) (hΓ : Γ.Within R Δ) (hret : R ret ret') :
    ∀ {last : τ} {last' : σ} {l : List Expr} {t : τ}, Sequence Γ ret last l t → R last last' →
      ∃ x, R t x ∧ Sequence Δ ret' last' l x
  | _, _, _, _, .nil, hlast => ⟨_, hlast, .nil⟩
  | _, _, _, _, .cons hne he hrest, hlast => by
    obtain ⟨x, hx, he'⟩ := he.transfer hR hΓ hret .none
    obtain ⟨y, hy, hrest'⟩ := hrest.transfer hR hΓ hret hx
    exact ⟨y, hy, .cons (mt (hR.eq_iff hlast hR.unreachable).mpr hne) he' hrest'⟩
  | _, _, _, _, .padding hrest, hlast => by
    obtain ⟨y, hy, hrest'⟩ := hrest.transfer hR hΓ hret hlast
    obtain rfl := (hR.eq_iff hlast hR.unreachable).mp rfl
    exact ⟨y, hy, .padding hrest'⟩

theorem Arguments.transfer (hR : Translation R) (hΓ : Γ.Within R Δ) (hret : R ret ret') :
    ∀ {params : List τ} {params' : List σ} {l : List Expr}, Arguments Γ ret params l →
      List.Forall₂ R params params' → Arguments Δ ret' params' l
  | _, _, _, .nil, .nil => .nil
  | _, _, _, .cons he hargs, .cons hp hps => by
    obtain ⟨_, -, he'⟩ := he.transfer hR hΓ hret (.some hp)
    exact .cons he' (hargs.transfer hR hΓ hret hps)

end

end

end Sema
