import Sema.Proofs.Checked
import Sema.Proofs.Outcome
import Sema.Proofs.Typing

/-!
The checker against the typing rules. Where no signature holds the invalid type, checking an
expression is clean with a type exactly when the rules give the expression that type.
-/

namespace Sema

/-! ### Operators -/

theorem BinaryOp.rule_eq_ok_iff {op : BinaryOp} {r : OperatorRule} :
    op.rule = .ok r ↔ op.types = some (r.operand, r.result) := by
  obtain ⟨o, t⟩ := r
  cases op <;> simp [rule, types, OperatorRule.logical, OperatorRule.comparison,
    OperatorRule.arithmetic, BaseTypes.bool, BaseTypes.i32]

theorem UnaryOp.rule_eq_ok_iff {op : UnaryOp} {r : OperatorRule} :
    op.rule = .ok r ↔ op.types = some (r.operand, r.result) := by
  obtain ⟨o, t⟩ := r
  cases op <;> simp [rule, types, OperatorRule.logical, BaseTypes.bool]

theorem BinaryOp.types_ne_invalid {op : BinaryOp} {o r : TypeId} (h : op.types = some (o, r)) :
    o ≠ .invalid ∧ r ≠ .invalid := by
  cases op <;> simp only [types, Option.some.injEq, Prod.mk.injEq, reduceCtorEq] at h
  all_goals
    obtain ⟨rfl, rfl⟩ := h
    decide

theorem UnaryOp.types_ne_invalid {op : UnaryOp} {o r : TypeId} (h : op.types = some (o, r)) :
    o ≠ .invalid ∧ r ≠ .invalid := by
  cases op <;> simp only [types, Option.some.injEq, Prod.mk.injEq, reduceCtorEq] at h
  obtain ⟨rfl, rfl⟩ := h
  decide

/-! ### Types -/

theorem TypeId.accepts_iff {e t : TypeId} (he : e ≠ .invalid) (ht : t ≠ .invalid) :
    e.accepts t ↔ Fits (some e) t := by
  simp [accepts, he, ht, Fits, BaseTypes.unreachable]

section

variable {Γ : Env TypeId} {ret : TypeId}

theorem Arguments.length_eq {params : List TypeId} {l : List Expr} (h : Arguments Γ ret params l) :
    params.length = l.length := by
  induction l generalizing params with
  | nil => cases h; rfl
  | cons e l ih =>
    cases h with
    | cons _ h => rw [List.length_cons, List.length_cons, ih h]

/-- Whether no signature holds the invalid type. -/
def Env.Valid (Γ : Env TypeId) : Prop :=
  ∀ name sig, Γ name = some sig → .invalid ∉ sig.params ∧ sig.result ≠ .invalid

mutual

/-- The rules never give the invalid type. -/
theorem Checks.ne_invalid (hΓ : Γ.Valid) : ∀ {E : Option TypeId} {e : Expr} {t : TypeId},
    Checks Γ ret E e t → t ≠ .invalid
  | _, _, _, .number _ => by decide
  | _, _, _, .string _ => by decide
  | _, _, _, .void _ => by decide
  | _, _, _, .unreachable => by decide
  | _, _, _, .retNothing _ => by decide
  | _, _, _, .retValue _ _ => by decide
  | _, _, _, .binary h _ _ _ => (BinaryOp.types_ne_invalid h).2
  | _, _, _, .unary h _ _ => (UnaryOp.types_ne_invalid h).2
  | _, _, _, .call h _ _ => (hΓ _ _ h).2
  | _, _, _, .block h _ => h.ne_invalid hΓ (by decide)
  | _, _, _, .ifThen _ h _ => h.ne_invalid hΓ
  | _, _, _, .ifElse _ h _ _ => h.ne_invalid hΓ

theorem Sequence.ne_invalid (hΓ : Γ.Valid) : ∀ {last : TypeId} {l : List Expr} {t : TypeId},
    Sequence Γ ret last l t → last ≠ .invalid → t ≠ .invalid
  | _, _, _, .nil, h => h
  | _, _, _, .cons _ he hrest, _ => hrest.ne_invalid hΓ (he.ne_invalid hΓ)
  | _, _, _, .padding hrest, h => hrest.ne_invalid hΓ h

end

end

/-- A function that is defined on a list maps it to one. -/
theorem exists_map_eq_map_some {α β : Type} {g : α → Option β} {l : List α}
    (h : ∀ x ∈ l, ∃ y, g x = some y) : ∃ l' : List β, l.map g = l'.map some := by
  induction l with
  | nil => exact ⟨[], rfl⟩
  | cons x l ih =>
    obtain ⟨y, hy⟩ := h x (List.mem_cons_self ..)
    obtain ⟨l', hl⟩ := ih fun z hz => h z (List.mem_cons_of_mem _ hz)
    exact ⟨y :: l', by rw [List.map_cons, hy, hl, List.map_cons]⟩

/-- The types of the functions that a file sees, as the notes on their signatures have them. -/
def Analysis.env (a : Analysis) (file : Nat) : Env TypeId := fun name => do
  let f ← (a.lookupFunction file name).bind a.function?
  let params ← f.proto.params.mapM fun p => a.notes.resolvedType? p.type.node.id
  let result ← a.notes.resolvedType? f.proto.returnType.node.id
  return ⟨params, result⟩

theorem Analysis.env_eq_some_iff {a : Analysis} {file : Nat} {name : String}
    {sig : Signature TypeId} : a.env file name = some sig ↔
      ∃ f, (a.lookupFunction file name).bind a.function? = some f ∧
        f.proto.params.map (fun p => a.notes.resolvedType? p.type.node.id) = sig.params.map some ∧
        a.notes.resolvedType? f.proto.returnType.node.id = some sig.result := by
  simp only [env, Option.bind_eq_bind, Option.bind_eq_some_iff, mapM_eq_some_iff, Option.pure_def,
    Option.some.injEq]
  constructor
  · rintro ⟨f, hf, ps, hps, r, hr, rfl⟩
    exact ⟨f, hf, hps, hr⟩
  · rintro ⟨f, hf, hps, hr⟩
    exact ⟨f, hf, _, hps, _, hr, rfl⟩

/-- What the signatures leave for the bodies: a function that a name leads to is in the table, and the
nodes of its types have their notes. -/
def Analysis.Linked (a : Analysis) : Prop :=
  ∀ file name k, a.lookupFunction file name = some k → ∃ f, a.function? k = some f ∧
    ∀ t ∈ f.proto.types, ∃ i, a.notes.resolvedType? t.node.id = some i

/-- A name that is found has a signature, and a name that is not found has none. -/
theorem Analysis.Linked.env_cases {a : Analysis} (h : a.Linked) (file : Nat) (path : String)
    (name : String) :
    (a.lookupFunction file name = none ∧ a.env file name = none) ∨
    ∃ k sig, a.lookupFunction file name = some k ∧ a.env file name = some sig ∧
      Scope.signature ⟨a, file, path⟩ k = .pure (sig.params.map some, sig.result) := by
  cases hl : a.lookupFunction file name with
  | none => exact .inl ⟨rfl, by rw [env, hl]; rfl⟩
  | some k =>
    obtain ⟨f, hf, hres⟩ := h file name k hl
    obtain ⟨r, hr⟩ := hres _ f.proto.returnType_mem_types
    obtain ⟨ps, hps⟩ := exists_map_eq_map_some fun p hp =>
      hres p.type (Prototype.type_mem_types (p := f.proto) hp)
    refine .inr ⟨k, ⟨ps, r⟩, rfl, ?_, ?_⟩
    · exact env_eq_some_iff.mpr ⟨f, by rw [hl]; exact hf, hps, hr⟩
    · simp [Scope.signature, Scope.resolvedType, hf, hr, hps, Checked.ofOption, bind, Checked.bind,
        Checked.pure, pure]

namespace Scope

open Checked

variable {s : Scope}

/-! ### Parts of checking -/

theorem clean_compare_iff {pos : Position} {E : Option TypeId} {t : TypeId} (hE : E ≠ some .invalid)
    (ht : t ≠ .invalid) : (s.compare pos E t).Clean () ↔ Fits E t := by
  cases E with
  | none => simp [compare, clean_pure_iff, Fits]
  | some e =>
    rw [← TypeId.accepts_iff (fun he => hE (congrArg some he)) ht, compare]
    split
    · next h => simp [clean_pure_iff, h]
    · next h => simp [clean_bind_iff, report, not_clean_report, h]

theorem clean_conclude_iff {node : Node} {E : Option TypeId} {t u : TypeId}
    (hE : E ≠ some .invalid) (ht : t ≠ .invalid) :
    (s.conclude node E t).Clean u ↔ u = t ∧ Fits E t := by
  simp only [conclude, clean_bind_iff, pure_eq, clean_pure_iff]
  constructor
  · rintro ⟨_, hc, _, -, rfl⟩
    exact ⟨rfl, (clean_compare_iff hE ht).mp hc⟩
  · rintro ⟨rfl, hf⟩
    exact ⟨(), (clean_compare_iff hE ht).mpr hf, (), clean_note _ _, rfl⟩

theorem clean_concludeReturn_iff {node : Node} {ret t : TypeId} (hret : ret ≠ .invalid)
    (ht : t ≠ .invalid) :
    (s.concludeReturn node ret t).Clean () ↔ Fits (some ret) t ∧ t ≠ .unreachable := by
  unfold concludeReturn
  split
  · next h => simp [clean_bind_iff, report, not_clean_report, h]
  · next h =>
    rw [clean_compare_iff (fun he => hret (Option.some.inj he)) ht]
    simp [h]

/-- How the branches of a conditional are compared. -/
theorem clean_compare_branches_iff {pos : Position} {E : Option TypeId} {t v : TypeId}
    (hE : E ≠ some .invalid) (ht : t ≠ .invalid) (hv : v ≠ .invalid) (hf : Fits E v) :
    (s.compare pos (if (some v).isSome && E.isNone && decide (t ≠ .unreachable) then some t else E)
      ((some v).getD .void)).Clean () ↔ (E = none → t = .unreachable ∨ Fits (some t) v) := by
  cases E with
  | some e => simp [clean_compare_iff hE hv, hf]
  | none =>
    by_cases hu : t = .unreachable
    · simp [hu, clean_compare_iff, hv, Fits.none]
    · simp [hu, clean_compare_iff (fun h => ht (Option.some.inj h)) hv]

section

variable {Γ : Env TypeId} {ret : TypeId}

/-- What is wanted of a scope to compare checking with the rules. -/
structure Follows (s : Scope) (Γ : Env TypeId) : Prop where
  valid : Γ.Valid
  names : ∀ name, (s.analysis.lookupFunction s.file name = none ∧ Γ name = none) ∨
    ∃ k sig, s.analysis.lookupFunction s.file name = some k ∧ Γ name = some sig ∧
      s.signature k = .pure (sig.params.map some, sig.result)

/-- Whether checking an expression is clean exactly when the rules accept it. -/
def Judges (s : Scope) (Γ : Env TypeId) (ret : TypeId) (e : Expr) : Prop :=
  ∀ E t, E ≠ some .invalid → ((s.check ret E e).Clean t ↔ Checks Γ ret E e t)

def JudgesBlock (s : Scope) (Γ : Env TypeId) (ret : TypeId) (l : List Expr) : Prop :=
  ∀ last t, last ≠ .invalid → ((s.checkBlock ret last l).Clean t ↔ Sequence Γ ret last l t)

def JudgesArgs (s : Scope) (Γ : Env TypeId) (ret : TypeId) (l : List Expr) : Prop :=
  ∀ params : List TypeId, params.length = l.length → .invalid ∉ params →
    ((s.checkArgs ret (params.map some) l).Clean () ↔ Arguments Γ ret params l)

/-! ### One construct at a time -/

-- The equations of checking are made here once, and not by each lemma below anew.
attribute [local simp] check checkOptional checkBlock checkArgs

theorem judges_number (n : Node) (text : String) : s.Judges Γ ret (.number n text) := by
  intro E t hE
  rw [check, clean_conclude_iff hE (by decide)]
  constructor
  · rintro ⟨rfl, hf⟩
    exact .number hf
  · intro hc
    cases hc with
    | number hf => exact ⟨rfl, hf⟩

theorem judges_string (n : Node) (text : String) : s.Judges Γ ret (.string n text) := by
  intro E t hE
  rw [check, clean_conclude_iff hE (by decide)]
  constructor
  · rintro ⟨rfl, hf⟩
    exact .string hf
  · intro hc
    cases hc with
    | string hf => exact ⟨rfl, hf⟩

theorem judges_unreachable (n : Node) : s.Judges Γ ret (.unreachable n) := by
  intro E t hE
  rw [check, clean_conclude_iff hE (by decide)]
  constructor
  · rintro ⟨rfl, -⟩
    exact .unreachable
  · intro hc
    cases hc with
    | unreachable => exact ⟨rfl, .unreachable E⟩

theorem judges_void (n : Node) : s.Judges Γ ret (.void n) := by
  intro E t hE
  rw [check, clean_conclude_iff hE (by decide)]
  constructor
  · rintro ⟨rfl, hf⟩
    exact .void hf
  · intro hc
    cases hc with
    | void hf => exact ⟨rfl, hf⟩

theorem judges_symbol (n : Node) (name : String) : s.Judges Γ ret (.symbol n name) := by
  intro E t _
  exact ⟨fun hc => absurd hc not_clean_fail, fun hc => nomatch hc⟩

theorem judges_cast (n : Node) (e : Expr) (target : TypeRef) :
    s.Judges Γ ret (.cast n e target) := by
  intro E t _
  exact ⟨fun hc => absurd hc not_clean_fail, fun hc => nomatch hc⟩

theorem judges_binary (n : Node) (op : BinaryOp) {l r : Expr} (hl : s.Judges Γ ret l)
    (hr : s.Judges Γ ret r) : s.Judges Γ ret (.binary n op l r) := by
  intro E t hE
  simp only [check, clean_bind_iff, clean_ofExcept_iff, BinaryOp.rule_eq_ok_iff]
  constructor
  · rintro ⟨rule, ho, u, hcl, v, hcr, hc⟩
    obtain ⟨hno, hnr⟩ := BinaryOp.types_ne_invalid ho
    have hE' : some rule.operand ≠ some .invalid := mt Option.some.inj hno
    obtain ⟨rfl, hf⟩ := (clean_conclude_iff hE hnr).mp hc
    exact .binary ho ((hl _ _ hE').mp hcl) ((hr _ _ hE').mp hcr) hf
  · intro hc
    cases hc with
    | binary ho hcl hcr hf =>
      obtain ⟨hno, hnr⟩ := BinaryOp.types_ne_invalid ho
      have hE' := mt Option.some.inj hno
      exact ⟨⟨_, _⟩, ho, _, (hl _ _ hE').mpr hcl, _, (hr _ _ hE').mpr hcr,
        (clean_conclude_iff hE hnr).mpr ⟨rfl, hf⟩⟩

theorem judges_unary (n : Node) (op : UnaryOp) {e : Expr} (he : s.Judges Γ ret e) :
    s.Judges Γ ret (.unary n op e) := by
  intro E t hE
  simp only [check, clean_bind_iff, clean_ofExcept_iff, UnaryOp.rule_eq_ok_iff]
  constructor
  · rintro ⟨rule, ho, u, hce, hc⟩
    obtain ⟨hno, hnr⟩ := UnaryOp.types_ne_invalid ho
    obtain ⟨rfl, hf⟩ := (clean_conclude_iff hE hnr).mp hc
    exact .unary ho ((he _ _ (mt Option.some.inj hno)).mp hce) hf
  · intro hc
    cases hc with
    | unary ho hce hf =>
      obtain ⟨hno, hnr⟩ := UnaryOp.types_ne_invalid ho
      exact ⟨⟨_, _⟩, ho, _, (he _ _ (mt Option.some.inj hno)).mpr hce,
        (clean_conclude_iff hE hnr).mpr ⟨rfl, hf⟩⟩

theorem judges_block (h : s.Follows Γ) (n : Node) {l : List Expr} (hl : s.JudgesBlock Γ ret l) :
    s.Judges Γ ret (.block n l) := by
  intro E t hE
  simp only [check, clean_bind_iff]
  constructor
  · rintro ⟨u, hs, hc⟩
    have hseq := (hl _ _ (by decide)).mp hs
    obtain ⟨rfl, hf⟩ := (clean_conclude_iff hE (hseq.ne_invalid h.valid (by decide))).mp hc
    exact .block hseq hf
  · intro hc
    cases hc with
    | block hs hf =>
      exact ⟨t, (hl _ _ (by decide)).mpr hs,
        (clean_conclude_iff hE (hs.ne_invalid h.valid (by decide))).mpr ⟨rfl, hf⟩⟩

theorem judges_retNothing (hret : ret ≠ .invalid) (n : Node) :
    s.Judges Γ ret (.ret n none) := by
  intro E t hE
  simp only [check, checkOptional, clean_bind_iff, clean_pure_iff]
  constructor
  · rintro ⟨_, rfl, _, hr, hc⟩
    obtain ⟨rfl, -⟩ := (clean_conclude_iff hE (by decide)).mp hc
    obtain ⟨hf, -⟩ := (clean_concludeReturn_iff hret (by decide)).mp hr
    rcases Fits.some_iff.mp hf with hv | hv
    · exact .retNothing hv.symm
    · cases hv
  · intro hc
    cases hc with
    | retNothing hv =>
      refine ⟨none, rfl, (), (clean_concludeReturn_iff hret (by decide)).mpr ⟨?_, by decide⟩,
        (clean_conclude_iff hE (by decide)).mpr ⟨rfl, .unreachable E⟩⟩
      exact Fits.some_iff.mpr (.inl hv.symm)

theorem judges_retValue (h : s.Follows Γ) (hret : ret ≠ .invalid) (n : Node) {value : Expr}
    (hv : s.Judges Γ ret value) : s.Judges Γ ret (.ret n (some value)) := by
  intro E t hE
  have hE' : some ret ≠ some .invalid := mt Option.some.inj hret
  simp only [check, checkOptional, clean_bind_iff, pure_eq, clean_pure_iff]
  constructor
  · rintro ⟨_, ⟨u, hcv, rfl⟩, _, hr, hc⟩
    have hcv' := (hv _ _ hE').mp hcv
    obtain ⟨rfl, -⟩ := (clean_conclude_iff hE (by decide)).mp hc
    obtain ⟨-, hne⟩ := (clean_concludeReturn_iff hret (hcv'.ne_invalid h.valid)).mp hr
    exact .retValue hcv' hne
  · intro hc
    cases hc with
    | retValue hcv hne =>
      exact ⟨_, ⟨_, (hv _ _ hE').mpr hcv, rfl⟩, (),
        (clean_concludeReturn_iff hret (hcv.ne_invalid h.valid)).mpr ⟨hcv.fits, hne⟩,
        (clean_conclude_iff hE (by decide)).mpr ⟨rfl, .unreachable E⟩⟩

theorem judges_call (h : s.Follows Γ) (n m : Node) (name : String) {args : List Expr}
    (hargs : s.JudgesArgs Γ ret args) : s.Judges Γ ret (.call n (.symbol m name) args) := by
  intro E t hE
  rw [check]
  rcases h.names name with ⟨hl, hΓ⟩ | ⟨k, sig, hl, hΓ, hsig⟩
  · rw [hl]
    simp only [clean_bind_iff]
    constructor
    · rintro ⟨_, hr, -⟩
      exact absurd hr not_clean_report
    · intro hc
      cases hc with
      | call hs _ _ =>
        rw [hΓ] at hs
        cases hs
  · obtain ⟨hparams, hresult⟩ := h.valid name sig hΓ
    have hsig' : (s.signature k).Clean (sig.params.map some, sig.result) := by
      rw [hsig]
      exact clean_pure_iff.mpr rfl
    rw [hl]
    constructor
    · intro hc
      obtain ⟨_, hs, hc⟩ := clean_bind_iff.mp hc
      rw [hsig, clean_pure_iff] at hs
      subst hs
      simp only [List.length_map] at hc
      split at hc
      · obtain ⟨_, hr, -⟩ := clean_bind_iff.mp hc
        exact absurd hr not_clean_report
      · next hlen =>
        obtain ⟨_, ha, hc⟩ := clean_bind_iff.mp hc
        obtain ⟨rfl, hf⟩ := (clean_conclude_iff hE hresult).mp hc
        exact .call hΓ ((hargs _ (not_not.mp hlen) hparams).mp ha) hf
    · intro hc
      cases hc with
      | call hs ha hf =>
        rw [hΓ, Option.some.injEq] at hs
        subst hs
        have hlen := ha.length_eq
        refine clean_bind_iff.mpr ⟨_, hsig', ?_⟩
        simp only [List.length_map, hlen, ne_eq, not_true_eq_false, if_false]
        exact clean_bind_iff.mpr ⟨(), (hargs _ hlen hparams).mpr ha,
          (clean_conclude_iff hE hresult).mpr ⟨rfl, hf⟩⟩

theorem judges_ifThen (h : s.Follows Γ) (n : Node) {c th : Expr} (hc : s.Judges Γ ret c)
    (ht : s.Judges Γ ret th) : s.Judges Γ ret (.cond n c th none) := by
  intro E t hE
  have hbool : some TypeId.bool ≠ some .invalid := by decide
  simp only [check, checkOptional, clean_bind_iff, clean_pure_iff]
  constructor
  · rintro ⟨u, hcc, _, rfl, v, hct, _, hcmp, hend⟩
    have ht' := (ht _ _ hE).mp hct
    obtain ⟨rfl, -⟩ := (clean_conclude_iff hE (ht'.ne_invalid h.valid)).mp hend
    exact .ifThen ((hc _ _ hbool).mp hcc) ht' ((clean_compare_iff hE (by decide)).mp hcmp)
  · intro hif
    cases hif with
    | ifThen hcc hct hf =>
      exact ⟨_, (hc _ _ hbool).mpr hcc, none, rfl, t, (ht _ _ hE).mpr hct, (),
        (clean_compare_iff hE (by decide)).mpr hf,
        (clean_conclude_iff hE (hct.ne_invalid h.valid)).mpr ⟨rfl, hct.fits⟩⟩

theorem judges_ifElse (h : s.Follows Γ) (n : Node) {c th el : Expr} (hc : s.Judges Γ ret c)
    (ht : s.Judges Γ ret th) (he : s.Judges Γ ret el) :
    s.Judges Γ ret (.cond n c th (some el)) := by
  intro E t hE
  have hbool : some TypeId.bool ≠ some .invalid := by decide
  simp only [check, checkOptional, clean_bind_iff, pure_eq, clean_pure_iff]
  constructor
  · rintro ⟨u, hcc, _, ⟨v, hce, rfl⟩, w, hct, _, hcmp, hend⟩
    have he' := (he _ _ hE).mp hce
    have ht' := (ht _ _ hE).mp hct
    obtain ⟨rfl, -⟩ := (clean_conclude_iff hE (ht'.ne_invalid h.valid)).mp hend
    refine .ifElse ((hc _ _ hbool).mp hcc) ht' he' ?_
    exact (clean_compare_branches_iff hE (ht'.ne_invalid h.valid) (he'.ne_invalid h.valid)
      he'.fits).mp hcmp
  · intro hif
    cases hif with
    | ifElse hcc hct hce hbranch =>
      refine ⟨_, (hc _ _ hbool).mpr hcc, _, ⟨_, (he _ _ hE).mpr hce, rfl⟩, t,
        (ht _ _ hE).mpr hct, (), ?_,
        (clean_conclude_iff hE (hct.ne_invalid h.valid)).mpr ⟨rfl, hct.fits⟩⟩
      exact (clean_compare_branches_iff hE (hct.ne_invalid h.valid) (hce.ne_invalid h.valid)
        hce.fits).mpr hbranch

theorem judgesBlock_nil : s.JudgesBlock Γ ret [] := by
  intro last t _
  rw [checkBlock, clean_pure_iff]
  constructor
  · rintro rfl
    exact .nil
  · intro hc
    cases hc with
    | nil => rfl

/-- After a statement that never completes nothing but padding is clean. -/
theorem clean_checkBlock_unreachable_iff {e : Expr} {rest : List Expr} {t : TypeId}
    (hrest : s.JudgesBlock Γ ret rest) :
    (s.checkBlock ret .unreachable (e :: rest)).Clean t ↔
      Sequence Γ ret .unreachable (e :: rest) t := by
  rw [checkBlock, if_pos rfl]
  cases e with
  | void n =>
    simp only [Expr.isVoid, Bool.not_true, Bool.false_eq_true, if_false]
    rw [hrest _ _ (by decide)]
    constructor
    · exact .padding
    · intro hc
      cases hc with
      | cons hne _ _ => exact absurd rfl hne
      | padding hrest => exact hrest
  | _ =>
    simp only [Expr.isVoid, Bool.not_false, if_true, clean_bind_iff]
    constructor
    · rintro ⟨_, hr, -⟩
      exact absurd hr not_clean_report
    · intro hc
      cases hc with
      | cons hne _ _ => exact absurd rfl hne

theorem judgesBlock_cons (h : s.Follows Γ) {e : Expr} {rest : List Expr} (he : s.Judges Γ ret e)
    (hrest : s.JudgesBlock Γ ret rest) : s.JudgesBlock Γ ret (e :: rest) := by
  intro last t _
  by_cases hl : last = .unreachable
  · subst hl
    exact clean_checkBlock_unreachable_iff hrest
  · rw [checkBlock, if_neg hl, clean_bind_iff]
    constructor
    · rintro ⟨u, hce, hcr⟩
      have he' := (he _ _ (by simp)).mp hce
      exact .cons hl he' ((hrest _ _ (he'.ne_invalid h.valid)).mp hcr)
    · intro hc
      cases hc with
      | cons _ hce hcr =>
        exact ⟨_, (he _ _ (by simp)).mpr hce, (hrest _ _ (hce.ne_invalid h.valid)).mpr hcr⟩
      | padding _ => exact absurd rfl hl

theorem judgesArgs_nil : s.JudgesArgs Γ ret [] := by
  intro params hlen _
  rw [List.length_nil, List.length_eq_zero_iff] at hlen
  subst hlen
  rw [checkArgs, clean_pure_iff]
  exact ⟨fun _ => .nil, fun _ => rfl⟩

theorem judgesArgs_cons {e : Expr} {rest : List Expr} (he : s.Judges Γ ret e)
    (hrest : s.JudgesArgs Γ ret rest) : s.JudgesArgs Γ ret (e :: rest) := by
  intro params hlen hp
  cases params with
  | nil => cases hlen
  | cons p params =>
    rw [List.mem_cons, not_or] at hp
    have hp' : some p ≠ some .invalid := fun heq => hp.1 (Option.some.inj heq).symm
    have hlen' : params.length = rest.length := Nat.succ.inj hlen
    simp only [checkArgs, clean_bind_iff, List.map_cons, List.head?_cons, List.tail_cons,
      Option.join_some]
    constructor
    · rintro ⟨u, hce, hcr⟩
      exact .cons ((he _ _ hp').mp hce) ((hrest _ hlen' hp.2).mp hcr)
    · intro hc
      cases hc with
      | cons hce hcr => exact ⟨_, (he _ _ hp').mpr hce, (hrest _ hlen' hp.2).mpr hcr⟩

/-! ### All constructs -/

mutual

/-- Checking is clean exactly when the rules accept. -/
theorem judges (h : s.Follows Γ) (hret : ret ≠ .invalid) : ∀ e : Expr, s.Judges Γ ret e
  | .number n text => judges_number n text
  | .string n text => judges_string n text
  | .unreachable n => judges_unreachable n
  | .void n => judges_void n
  | .symbol n name => judges_symbol n name
  | .cast n e target => judges_cast n e target
  | .binary n op l r => judges_binary n op (judges h hret l) (judges h hret r)
  | .unary n op e => judges_unary n op (judges h hret e)
  | .block n l => judges_block h n (judgesBlock h hret l)
  | .ret n none => judges_retNothing hret n
  | .ret n (some value) => judges_retValue h hret n (judges h hret value)
  | .cond n c th none => judges_ifThen h n (judges h hret c) (judges h hret th)
  | .cond n c th (some el) =>
    judges_ifElse h n (judges h hret c) (judges h hret th) (judges h hret el)
  | .call n callee args => by
    cases callee with
    | symbol m name => exact judges_call h n m name (judgesArgs h hret args)
    | _ => exact fun _ _ _ => ⟨fun hc => absurd hc not_clean_fail, fun hc => nomatch hc⟩

theorem judgesBlock (h : s.Follows Γ) (hret : ret ≠ .invalid) :
    ∀ l : List Expr, s.JudgesBlock Γ ret l
  | [] => judgesBlock_nil
  | e :: rest => judgesBlock_cons h (judges h hret e) (judgesBlock h hret rest)

theorem judgesArgs (h : s.Follows Γ) (hret : ret ≠ .invalid) :
    ∀ l : List Expr, s.JudgesArgs Γ ret l
  | [] => judgesArgs_nil
  | e :: rest => judgesArgs_cons (judges h hret e) (judgesArgs h hret rest)

end

end

end Scope

end Sema
