import Sema.Proofs.Expectation
import Sema.Proofs.Replacement
import Sema.Proofs.Trace

/-!
Errors do not spread. When a part of an expression becomes invalid, what encloses it is checked as
before: types stay as they are or become invalid too, and of the findings only mismatches are lost.
-/

namespace Sema

/-- Whether a type stays as it is or becomes invalid; that of what never completes stays. -/
def TypeId.Degrades (t t' : TypeId) : Prop := t' = t ∨ t' = .invalid ∧ t ≠ .unreachable

/-- Whether a note stays as it is or becomes that of an invalid expression. -/
def Note.Degrades (x x' : NodeId × Note) : Prop :=
  x'.1 = x.1 ∧ (x'.2 = x.2 ∨ x'.2 = .expr .invalid)

/-- Whether the second list is the first without some of its mismatches. -/
inductive Sheds : List Finding → List Finding → Prop where
  | nil : Sheds [] []
  | keep (f : Finding) {l l' : List Finding} : Sheds l l' → Sheds (f :: l) (f :: l')
  | shed (f : Finding) {l l' : List Finding} : f.isMismatch → Sheds l l' → Sheds (f :: l) l'

namespace TypeId.Degrades

variable {t t' : TypeId}

theorem refl (t : TypeId) : t.Degrades t := .inl rfl

theorem eq_unreachable_iff (h : t.Degrades t') : t' = .unreachable ↔ t = .unreachable := by
  rcases h with rfl | ⟨rfl, hne⟩
  · rfl
  · exact ⟨fun h => absurd h (by decide), fun h => absurd h hne⟩

/-- The type of what may be missing. -/
theorem getD {u u' : Option TypeId} (h : Option.Rel TypeId.Degrades u u') :
    (u.getD .void).Degrades (u'.getD .void) := by
  cases h with
  | some h => exact h
  | none => exact .refl _

end TypeId.Degrades

theorem Note.forall₂_degrades_refl (l : List (NodeId × Note)) : List.Forall₂ Note.Degrades l l :=
  List.forall₂_same.mpr fun _ _ => ⟨rfl, .inl rfl⟩

namespace Sheds

theorem refl : ∀ l : List Finding, Sheds l l
  | [] => .nil
  | f :: l => .keep f (refl l)

theorem append {l l' m m' : List Finding} (h : Sheds l l') (h' : Sheds m m') :
    Sheds (l ++ m) (l' ++ m') := by
  induction h with
  | nil => exact h'
  | keep f _ ih => exact .keep f ih
  | shed f hf _ ih => exact .shed f hf ih

/-- Mismatches alone can all be left out. -/
theorem of_forall : ∀ {l : List Finding}, (∀ f ∈ l, f.isMismatch) → Sheds l []
  | [], _ => .nil
  | f :: l, h => by
    obtain ⟨hf, hl⟩ := List.forall_mem_cons.mp h
    exact .shed f hf (of_forall hl)

end Sheds

namespace Checked

variable {α β : Type}

/-- Whether a run ends with a value and with notes of the types that are told. -/
def Ends (type? : NodeId → Option TypeId) (x : Checked α) (v : α) : Prop :=
  x.outcome = .ok v ∧ Scope.Agrees type? x.notes

/-- Whether `y` ends when `x` does, with a related value, degraded notes, and the findings of `x`
but for some mismatches. -/
def Follows (R : α → α → Prop) (x y : Checked α) : Prop :=
  ∀ v, x.outcome = .ok v → ∃ w, y.outcome = .ok w ∧ R v w ∧
    x.notes.Forall₂ Note.Degrades y.notes ∧ Sheds x.findings y.findings

/-- How `y` is `x` with the run `inner'` in the place of `inner`: what is given before stays, and
what is given after degrades. -/
structure Parted (inner inner' : Checked TypeId) (x y : Checked α) : Prop where
  ends : ∃ t, inner.outcome = .ok t
  notes : ∃ l r r', x.notes = l ++ inner.notes ++ r ∧ y.notes = l ++ inner'.notes ++ r' ∧
    List.Forall₂ Note.Degrades r r'
  findings : ∃ l r r', x.findings = l ++ inner.findings ++ r ∧
    y.findings = l ++ inner'.findings ++ r' ∧ Sheds r r'

/-- Whether `y` ends when `x` does, with a related value, and is `x` with one run in the place of
another, where `I` tells which. -/
def Around (type? : NodeId → Option TypeId) (I : Checked TypeId → Checked TypeId → Prop)
    (R : α → α → Prop) (x y : Checked α) : Prop :=
  ∀ v, x.Ends type? v → ∃ w, y.outcome = .ok w ∧ R v w ∧
    ∃ inner inner', I inner inner' ∧ Parted inner inner' x y

section

variable {type? : NodeId → Option TypeId} {I J : Checked TypeId → Checked TypeId → Prop}
  {R : α → α → Prop} {Q : β → β → Prop} {x y : Checked α} {f g : α → Checked β}

/-- What a run of two parts gives is what the parts give. -/
theorem bind_of_ok {v : α} (h : x.outcome = .ok v) : (x >>= f) =
    ⟨x.notes ++ (f v).notes, x.findings ++ (f v).findings, (f v).outcome⟩ := by
  rw [bind_eq, Checked.bind, h]

theorem outcome_of_bind {w : β} (h : (x >>= f).outcome = .ok w) :
    ∃ v, x.outcome = .ok v ∧ (f v).outcome = .ok w := by
  obtain ⟨v, _, _, hx, hf, -⟩ := gives_bind_iff.mp ⟨h, rfl⟩
  exact ⟨v, hx.1, hf.1⟩

theorem Ends.of_bind {w : β} (h : (x >>= f).Ends type? w) :
    ∃ v, x.Ends type? v ∧ (f v).Ends type? w := by
  obtain ⟨hout, hagrees⟩ := h
  obtain ⟨v, hx, hf⟩ := outcome_of_bind hout
  rw [bind_of_ok hx] at hagrees
  exact ⟨v, ⟨hx, hagrees.append.1⟩, hf, hagrees.append.2⟩

theorem Follows.of_eq (h : ∀ v, R v v) (x : Checked α) : x.Follows R x :=
  fun v hv => ⟨v, hv, h v, Note.forall₂_degrades_refl _, .refl _⟩

theorem Follows.bind (h : x.Follows R y) (hf : ∀ v w, R v w → (f v).Follows Q (g w)) :
    (x >>= f).Follows Q (y >>= g) := by
  intro w hw
  obtain ⟨v, hx, hfv⟩ := outcome_of_bind hw
  obtain ⟨v', hy, hR, hnotes, hfound⟩ := h v hx
  obtain ⟨w', hg, hQ, hnotes', hfound'⟩ := hf v v' hR w hfv
  rw [bind_of_ok hx, bind_of_ok hy]
  exact ⟨w', hg, hQ, List.rel_append hnotes hnotes', hfound.append hfound'⟩

theorem Around.imp (h : Around type? I R x y) (hI : ∀ i i', I i i' → J i i') :
    Around type? J R x y := by
  intro v hv
  obtain ⟨w, hw, hR, i, i', hi, hp⟩ := h v hv
  exact ⟨w, hw, hR, i, i', hI i i' hi, hp⟩

/-- Nothing is asked where a run stops. -/
theorem Around.of_error {c : AnalysisError} (h : x.outcome = .error c) : Around type? I R x y := by
  intro v hv
  rw [Ends, h] at hv
  cases hv.1

/-- The part is in the first run of two. -/
theorem Around.bind_left (h : Around type? I R x y) (hf : ∀ v w, R v w → (f v).Follows Q (g w)) :
    Around type? I Q (x >>= f) (y >>= g) := by
  intro w hw
  obtain ⟨v, hx, hfv⟩ := hw.of_bind
  obtain ⟨v', hy, hR, i, i', hi, hends, ⟨l, r, r', hnx, hny, hn⟩, ⟨m, q, q', hfx, hfy, hs⟩⟩ :=
    h v hx
  obtain ⟨w', hg, hQ, hn', hs'⟩ := hf v v' hR w hfv.1
  rw [bind_of_ok hx.1, bind_of_ok hy]
  refine ⟨w', hg, hQ, i, i', hi, hends, ⟨l, r ++ (f v).notes, r' ++ (g v').notes, ?_, ?_, ?_⟩,
    ⟨m, q ++ (f v).findings, q' ++ (g v').findings, ?_, ?_, hs.append hs'⟩⟩
  · rw [hnx, List.append_assoc]
  · rw [hny, List.append_assoc]
  · exact List.rel_append hn hn'
  · rw [hfx, List.append_assoc]
  · rw [hfy, List.append_assoc]

/-- The part is in the second run of two. -/
theorem Around.bind_right (hf : ∀ v, x.Ends type? v → Around type? I Q (f v) (g v)) :
    Around type? I Q (x >>= f) (x >>= g) := by
  intro w hw
  obtain ⟨v, hx, hfv⟩ := hw.of_bind
  obtain ⟨w', hg, hQ, i, i', hi, hends, ⟨l, r, r', hnx, hny, hn⟩, ⟨m, q, q', hfx, hfy, hs⟩⟩ :=
    hf v hx w hfv
  rw [bind_of_ok hx.1, bind_of_ok hx.1]
  refine ⟨w', hg, hQ, i, i', hi, hends, ⟨x.notes ++ l, r, r', ?_, ?_, hn⟩,
    ⟨x.findings ++ m, q, q', ?_, ?_, hs⟩⟩
  · rw [hnx, List.append_assoc, List.append_assoc, List.append_assoc]
  · rw [hny, List.append_assoc, List.append_assoc, List.append_assoc]
  · rw [hfx, List.append_assoc, List.append_assoc, List.append_assoc]
  · rw [hfy, List.append_assoc, List.append_assoc, List.append_assoc]

end

end Checked

namespace Scope

open Checked (Around Follows Ends)

variable {s : Scope}

/-! ### After the part -/

/-- A comparison that fails finds a mismatch and nothing else. -/
theorem sheds_compare (pos : Position) (E : Option TypeId) (t : TypeId) :
    Sheds (s.compare pos E t).findings [] := by
  refine .of_forall fun f hf => ?_
  cases E with
  | none => cases hf
  | some e =>
    rw [compare] at hf
    split at hf
    · cases hf
    · cases he : s.analysis.types.name? e <;> cases ht : s.analysis.types.name? t <;>
        simp [typeName, he, ht, Checked.ofOption, Checked.fail, Checked.pure, report,
          Checked.report, Checked.bind_eq, Checked.bind] at hf
      rw [hf]
      rfl

/-- A comparison with an invalid type finds nothing. -/
theorem compare_of_invalid {pos : Position} {E : Option TypeId} {t : TypeId}
    (h : E = some .invalid ∨ t = .invalid) : s.compare pos E t = .pure () := by
  cases E with
  | none => rfl
  | some e =>
    have haccepts : e.accepts t := by
      rcases h with h | rfl
      · rw [Option.some.inj h]
        simp [TypeId.accepts]
      · simp [TypeId.accepts]
    rw [compare, if_pos haccepts]

section

variable {pos : Position} {E E' : Option TypeId} {t t' : TypeId}

theorem follows_compare (hE : E' = E ∨ E' = some .invalid) (ht : t.Degrades t') :
    (s.compare pos E t).Follows (fun _ _ => True) (s.compare pos E' t') := by
  have hinvalid : E' = some .invalid ∨ t' = .invalid →
      (s.compare pos E t).Follows (fun _ _ => True) (s.compare pos E' t') := by
    intro h v _
    rw [compare_of_invalid h]
    refine ⟨(), rfl, trivial, ?_, sheds_compare pos E t⟩
    rw [notes_compare]
    exact .nil
  rcases hE with rfl | hE
  · rcases ht with rfl | ⟨ht, -⟩
    · exact .of_eq (fun _ => trivial) _
    · exact hinvalid (.inr ht)
  · exact hinvalid (.inl hE)

theorem follows_conclude {node : Node} (ht : t.Degrades t') :
    (s.conclude node E t).Follows TypeId.Degrades (s.conclude node E t') := by
  refine (follows_compare (.inl rfl) ht).bind fun _ _ _ => ?_
  refine Follows.bind (R := fun _ _ => True) ?_ fun _ _ _ => ?_
  · intro v _
    refine ⟨(), rfl, trivial, .cons ⟨rfl, ?_⟩ .nil, .refl _⟩
    rcases ht with rfl | ⟨rfl, -⟩
    · exact .inl rfl
    · exact .inr rfl
  · intro v hv
    obtain rfl := Except.ok.inj hv
    exact ⟨t', rfl, ht, .nil, .nil⟩

theorem follows_concludeReturn {node : Node} {ret : TypeId} (ht : t.Degrades t') :
    (s.concludeReturn node ret t).Follows (fun _ _ => True) (s.concludeReturn node ret t') := by
  rcases ht with rfl | ⟨rfl, hne⟩
  · exact .of_eq (fun _ => trivial) _
  · rw [concludeReturn, if_neg hne, concludeReturn, if_neg (by decide)]
    exact follows_compare (.inl rfl) (.inr ⟨rfl, hne⟩)

/-- The next statements are checked as before. -/
theorem follows_checkBlock (ret : TypeId) (l : List Expr) (ht : t.Degrades t') :
    (s.checkBlock ret t l).Follows TypeId.Degrades (s.checkBlock ret t' l) := by
  rcases ht with rfl | ⟨rfl, hne⟩
  · exact .of_eq TypeId.Degrades.refl _
  · cases l with
    | nil =>
      intro v hv
      obtain rfl := Except.ok.inj hv
      exact ⟨.invalid, rfl, .inr ⟨rfl, hne⟩, .nil, .nil⟩
    | cons e rest =>
      rw [checkBlock, checkBlock, if_neg hne, if_neg (by decide)]
      exact .of_eq TypeId.Degrades.refl _

end

/-! ### Around the part -/

/-- The type that is expected of an argument of a call. -/
def argumentType (s : Scope) (name : String) (i : Nat) : Option TypeId :=
  (s.analysis.env s.file name).bind (·.params[i]?)

/-- Whether `part` is given the last expectation when an expression is checked with the first. -/
inductive Expects (s : Scope) (ret : TypeId) (part : Expr) :
    Option TypeId → Expr → Option TypeId → Prop where
  | here (E : Option TypeId) : Expects s ret part E part E
  | statement (E : Option TypeId) (n : Node) {l : List Expr} {e : Expr} {E₀ : Option TypeId} :
      e ∈ l → Expects s ret part none e E₀ → Expects s ret part E (.block n l) E₀
  | ret (E : Option TypeId) (n : Node) {e : Expr} {E₀ : Option TypeId} :
      Expects s ret part (some ret) e E₀ → Expects s ret part E (.ret n (some e)) E₀
  | left (E : Option TypeId) (n : Node) (r : Expr) {op : BinaryOp} {rule : OperatorRule} {e : Expr}
      {E₀ : Option TypeId} : op.rule = .ok rule → Expects s ret part (some rule.operand) e E₀ →
      Expects s ret part E (.binary n op e r) E₀
  | right (E : Option TypeId) (n : Node) (l : Expr) {op : BinaryOp} {rule : OperatorRule} {e : Expr}
      {E₀ : Option TypeId} : op.rule = .ok rule → Expects s ret part (some rule.operand) e E₀ →
      Expects s ret part E (.binary n op l e) E₀
  | operand (E : Option TypeId) (n : Node) {op : UnaryOp} {rule : OperatorRule} {e : Expr}
      {E₀ : Option TypeId} : op.rule = .ok rule → Expects s ret part (some rule.operand) e E₀ →
      Expects s ret part E (.unary n op e) E₀
  | argument (E : Option TypeId) (n m : Node) (name : String) {args : List Expr} {i : Nat}
      {e : Expr} {E₀ : Option TypeId} : args[i]? = some e →
      Expects s ret part (s.argumentType name i) e E₀ →
      Expects s ret part E (.call n (.symbol m name) args) E₀
  | condition (E : Option TypeId) (n : Node) (th : Expr) (el : Option Expr) {e : Expr}
      {E₀ : Option TypeId} : Expects s ret part (some .bool) e E₀ →
      Expects s ret part E (.cond n e th el) E₀
  | thenBranch (E : Option TypeId) (n : Node) (c : Expr) (el : Option Expr) {e : Expr}
      {E₀ : Option TypeId} : Expects s ret part E e E₀ → Expects s ret part E (.cond n c e el) E₀
  | elseBranch (E : Option TypeId) (n : Node) (c th : Expr) {e : Expr} {E₀ : Option TypeId} :
      Expects s ret part E e E₀ → Expects s ret part E (.cond n c th (some e)) E₀

/-- The checks of `part` and of `new`, with the expectation given to `part` in `e`. -/
def InPlace (s : Scope) (ret : TypeId) (part new : Expr) (E : Option TypeId) (e : Expr)
    (inner inner' : Checked TypeId) : Prop :=
  ∃ E₀ : Option TypeId, s.Expects ret part E e E₀ ∧ (∀ t ∈ E₀, s.analysis.types.Has t) ∧
    inner = s.check ret E₀ part ∧ inner' = s.check ret E₀ new

section

variable {type? : NodeId → Option TypeId} {ret : TypeId} {part new e e' : Expr}

/-- What is in place in a part of an expression is in place in the expression. -/
theorem InPlace.imp {E E' : Option TypeId}
    (h : ∀ E₀, s.Expects ret part E e E₀ → s.Expects ret part E' e' E₀) (i i' : Checked TypeId)
    (hi : s.InPlace ret part new E e i i') : s.InPlace ret part new E' e' i i' := by
  obtain ⟨E₀, hE₀, hrest⟩ := hi
  exact ⟨E₀, h E₀ hE₀, hrest⟩

theorem around_checkOptional {I : Checked TypeId → Checked TypeId → Prop} {E : Option TypeId}
    (h : Around type? I TypeId.Degrades (s.check ret E e) (s.check ret E e')) :
    Around type? I (Option.Rel TypeId.Degrades) (s.checkOptional ret E (some e))
      (s.checkOptional ret E (some e')) := by
  rw [checkOptional, checkOptional]
  refine h.bind_left fun t t' ht v hv => ?_
  obtain rfl := Except.ok.inj hv
  exact ⟨some t', rfl, .some ht, .nil, .nil⟩

/-- A statement is reached where none of those before it diverges. -/
theorem around_checkBlock {I : Checked TypeId → Checked TypeId → Prop}
    (h : Around type? I TypeId.Degrades (s.check ret none e) (s.check ret none e'))
    (before after : List Expr) (hbefore : ∀ x ∈ before, Expr.diverges type? x = false)
    {last : TypeId} (hlast : last ≠ .unreachable) :
    Around type? I TypeId.Degrades (s.checkBlock ret last (before ++ e :: after))
      (s.checkBlock ret last (before ++ e' :: after)) := by
  induction before generalizing last with
  | nil =>
    rw [List.nil_append, List.nil_append, checkBlock, checkBlock, if_neg hlast, if_neg hlast]
    exact h.bind_left fun _ _ ht => follows_checkBlock ret after ht
  | cons x before ih =>
    obtain ⟨hx, hbefore⟩ := List.forall_mem_cons.mp hbefore
    rw [List.cons_append, List.cons_append, checkBlock, checkBlock, if_neg hlast, if_neg hlast]
    refine .bind_right fun t ht => ih hbefore ?_
    have htype := (marks_of_check ret x ⟨ht.1, rfl⟩ ht.2).2
    rintro rfl
    rw [Expr.diverges, htype] at hx
    exact absurd hx (by decide)

/-- An argument is checked against the parameter in its place. -/
theorem around_checkArgs {I : Checked TypeId → Checked TypeId → Prop} {E : Option TypeId}
    (h : Around type? I TypeId.Degrades (s.check ret E e) (s.check ret E e'))
    (before after : List Expr) (params : List (Option TypeId))
    (hE : params[before.length]?.join = E) :
    Around type? I (fun _ _ => True) (s.checkArgs ret params (before ++ e :: after))
      (s.checkArgs ret params (before ++ e' :: after)) := by
  induction before generalizing params with
  | nil =>
    rw [List.length_nil, ← List.head?_eq_getElem?] at hE
    rw [List.nil_append, List.nil_append, checkArgs, checkArgs, hE]
    exact h.bind_left fun _ _ _ => .of_eq (fun _ => trivial) _
  | cons x before ih =>
    rw [List.cons_append, List.cons_append, checkArgs, checkArgs]
    refine .bind_right fun _ _ => ih params.tail ?_
    rwa [List.getElem?_tail]

theorem has_argumentType (h : s.Safe) (name : String) (i : Nat) :
    ∀ t ∈ s.argumentType name i, s.analysis.types.Has t := by
  intro t ht
  obtain ⟨sig, henv, hsig⟩ := Option.bind_eq_some_iff.mp ht
  exact (h.signatures name sig henv).1 t (List.mem_of_getElem? hsig)

/-- The arguments of a call are checked whether or not there is a function of that name. -/
theorem around_call (h : s.Safe) {I : Checked TypeId → Checked TypeId → Prop}
    (before after : List Expr) {name : String}
    (hin : Around type? I TypeId.Degrades (s.check ret (s.argumentType name before.length) e)
      (s.check ret (s.argumentType name before.length) e')) (E : Option TypeId) (n m : Node) :
    Around type? I TypeId.Degrades
      (s.check ret E (.call n (.symbol m name) (before ++ e :: after)))
      (s.check ret E (.call n (.symbol m name) (before ++ e' :: after))) := by
  rw [check, check]
  rcases h.linked.env_cases s.file s.path name with ⟨hl, henv⟩ | ⟨k, sig, hl, henv, hsig⟩
  · have hnone : s.argumentType name before.length = none := by rw [argumentType, henv]; rfl
    rw [hl]
    refine .bind_right fun _ _ => ?_
    exact (around_checkArgs hin before after [] (by simp [hnone])).bind_left fun _ _ _ =>
      .of_eq TypeId.Degrades.refl _
  · have hparam : (sig.params.map some)[before.length]?.join =
        s.argumentType name before.length := by
      rw [argumentType, henv, Option.bind_some, List.getElem?_map]
      cases sig.params[before.length]? <;> rfl
    have hrest := (around_checkArgs hin before after _ hparam).bind_left
      (f := fun _ => s.conclude n E sig.result) fun _ _ _ => .of_eq TypeId.Degrades.refl _
    simp only [hl, hsig]
    refine .bind_right ?_
    rintro _ ⟨⟨⟩, -⟩
    simp only [List.length_append, List.length_cons]
    split
    · exact .bind_right fun _ _ => hrest
    · exact hrest

/-- An expression in which a live part becomes invalid is checked as before around that part. -/
theorem around_of_swap (h : s.Safe) (hret : s.analysis.types.Has ret)
    (hnew : ∀ E : Option TypeId, (∀ t ∈ E, s.analysis.types.Has t) →
      (s.check ret E new).outcome = .ok .invalid)
    (hpart : type? part.id ≠ some .unreachable)
    (hswap : Expr.Swap (Expr.diverges type?) part new e e') :
    ∀ E : Option TypeId, (∀ t ∈ E, s.analysis.types.Has t) →
      Around type? (s.InPlace ret part new E e) TypeId.Degrades (s.check ret E e)
        (s.check ret E e') := by
  induction hswap with
  | here =>
    intro E hE t ht
    have hplace : s.InPlace ret part new E part (s.check ret E part) (s.check ret E new) :=
      ⟨E, .here E, hE, rfl, rfl⟩
    refine ⟨.invalid, hnew E hE, .inr ⟨rfl, ?_⟩, _, _, hplace, ⟨t, ht.1⟩, ?_, ?_⟩
    · have htype := (marks_of_check ret part ⟨ht.1, rfl⟩ ht.2).2
      rintro rfl
      exact hpart htype
    · exact ⟨[], [], [], by simp, by simp, .nil⟩
    · exact ⟨[], [], [], by simp, by simp, .nil⟩
  | @statement n before after e _ hbefore _ ih =>
    intro E hE
    have hplace : ∀ E₀, s.Expects ret part none e E₀ →
        s.Expects ret part E (.block n (before ++ e :: after)) E₀ :=
      fun _ => .statement E n (by simp)
    have hin := (ih none (by simp)).imp (InPlace.imp hplace)
    rw [check, check]
    exact (around_checkBlock hin before after hbefore (by decide)).bind_left fun _ _ ht =>
      follows_conclude ht
  | ret n _ ih =>
    intro E hE
    have hin := (ih (some ret) hret.forall_mem_some).imp (InPlace.imp fun _ => .ret E n)
    rw [check, check]
    refine (around_checkOptional hin).bind_left fun _ _ hu => ?_
    exact (follows_concludeReturn (.getD hu)).bind fun _ _ _ => .of_eq TypeId.Degrades.refl _
  | left n op r _ ih =>
    intro E hE
    rw [check, check]
    cases hop : op.rule with
    | error c => exact .of_error rfl
    | ok rule =>
      have hoperand := (h.types.has_builtin (BinaryOp.rule_builtin hop).1).forall_mem_some
      have hin := (ih _ hoperand).imp (InPlace.imp fun _ => .left E n r hop)
      refine .bind_right ?_
      rintro _ ⟨⟨⟩, -⟩
      exact hin.bind_left fun _ _ _ => .of_eq TypeId.Degrades.refl _
  | right n op l _ ih =>
    intro E hE
    rw [check, check]
    cases hop : op.rule with
    | error c => exact .of_error rfl
    | ok rule =>
      have hoperand := (h.types.has_builtin (BinaryOp.rule_builtin hop).1).forall_mem_some
      have hin := (ih _ hoperand).imp (InPlace.imp fun _ => .right E n l hop)
      refine .bind_right ?_
      rintro _ ⟨⟨⟩, -⟩
      refine .bind_right fun _ _ => ?_
      exact hin.bind_left fun _ _ _ => .of_eq TypeId.Degrades.refl _
  | operand n op _ ih =>
    intro E hE
    rw [check, check]
    cases hop : op.rule with
    | error c => exact .of_error rfl
    | ok rule =>
      have hoperand := (h.types.has_builtin (UnaryOp.rule_builtin hop).1).forall_mem_some
      have hin := (ih _ hoperand).imp (InPlace.imp fun _ => .operand E n hop)
      refine .bind_right ?_
      rintro _ ⟨⟨⟩, -⟩
      exact hin.bind_left fun _ _ _ => .of_eq TypeId.Degrades.refl _
  | @callee n args c _ hc _ _ =>
    -- nothing but a name can be called
    intro E _
    cases c with
    | symbol m name => exact absurd rfl (hc m name)
    | _ => exact .of_error rfl
  | @argument n c before after e _ _ ih =>
    intro E hE
    cases c with
    | symbol m name =>
      have hplace : ∀ E₀, s.Expects ret part (s.argumentType name before.length) e E₀ →
          s.Expects ret part E (.call n (.symbol m name) (before ++ e :: after)) E₀ :=
        fun _ => .argument E n m name (by simp)
      exact around_call h before after ((ih _ (has_argumentType h name _)).imp (InPlace.imp hplace))
        E n m
    | _ => exact .of_error rfl
  | cast n t _ _ =>
    intro E _
    exact .of_error rfl
  | condition n th el _ ih =>
    intro E hE
    have hbool : s.analysis.types.Has .bool := h.types.has_builtin (by decide)
    have hin := (ih (some .bool) hbool.forall_mem_some).imp
      (InPlace.imp fun _ => .condition E n th el)
    rw [check, check]
    exact hin.bind_left fun _ _ _ => .of_eq TypeId.Degrades.refl _
  | thenBranch n c el _ ih =>
    intro E hE
    have hin := (ih E hE).imp (InPlace.imp fun _ => .thenBranch E n c el)
    rw [check, check]
    refine .bind_right fun _ _ => .bind_right fun u _ => hin.bind_left fun t t' ht => ?_
    refine (follows_compare ?_ (.refl _)).bind fun _ _ _ => follows_conclude ht
    -- the branches are compared with each other in both runs or in neither
    simp only [ne_eq, ht.eq_unreachable_iff]
    split
    · rcases ht with rfl | ⟨rfl, -⟩
      · exact .inl rfl
      · exact .inr rfl
    · exact .inl rfl
  | elseBranch n c th _ ih =>
    intro E hE
    have hin := (ih E hE).imp (InPlace.imp fun _ => .elseBranch E n c th)
    rw [check, check]
    refine .bind_right fun _ _ => (around_checkOptional hin).bind_left fun u u' hu => ?_
    have hpresent : u.isSome = u'.isSome := by cases hu <;> rfl
    refine (Follows.of_eq (fun _ => rfl) _).bind ?_
    rintro t _ rfl
    rw [hpresent]
    exact (follows_compare (.inl rfl) (.getD hu)).bind fun _ _ _ => .of_eq TypeId.Degrades.refl _

end

/-! ### In a body -/

/-- Whether an expression is checked to its end where `start` are the notes so far, and all its
notes can be written. -/
structure Passes (s : Scope) (ret : TypeId) (start : Notes) (E : Option TypeId) (e : Expr)
    (t : TypeId) (done : Notes) : Prop where
  outcome : (s.check ret E e).outcome = .ok t
  recorded : start.recordAll (s.check ret E e).notes = .ok done

/-- What becomes of an expression `e` of type `t` when `part` is replaced by `new`: the result `e'`
has the type `t'`. -/
structure Contained (s : Scope) (ret : TypeId) (start : Notes) (E : Option TypeId)
    (e part new e' : Expr) (t t' : TypeId) (done done' : Notes) : Prop where
  passes : s.Passes ret start E e' t' done'
  type : t.Degrades t'
  /-- Outside of the part the same nodes are live, and each has its old type or is invalid. -/
  live : ∃ before after,
    (e.live (Expr.diverges done.exprType?)).map Expr.id =
      before ++ (part.live (Expr.diverges done.exprType?)).map Expr.id ++ after ∧
    (e'.live (Expr.diverges done'.exprType?)).map Expr.id =
      before ++ (new.live (Expr.diverges done'.exprType?)).map Expr.id ++ after ∧
    ∀ n ∈ before ++ after, done'.exprType? n = done.exprType? n ∨ done'.exprType? n = some .invalid
  /-- What is found before the part stays, and what is found after it loses mismatches alone. -/
  findings : ∃ E₀ before after after', s.Expects ret part E e E₀ ∧
    (s.check ret E e).findings = before ++ (s.check ret E₀ part).findings ++ after ∧
    (s.check ret E e').findings = before ++ (s.check ret E₀ new).findings ++ after' ∧
    Sheds after after'

section

variable {ret : TypeId} {start done done' : Notes} {E E₀ E₁ : Option TypeId}
  {e part new e' : Expr} {t t' : TypeId}

/-- The nodes noted are those of the live parts. -/
theorem ids_of_check {type? : NodeId → Option TypeId} (h : (s.check ret E e).outcome = .ok t)
    (hl : Agrees type? (s.check ret E e).notes) :
    (s.check ret E e).notes.map Prod.fst = (e.live (Expr.diverges type?)).map Expr.id := by
  have hmarks := congrArg (List.map Prod.fst) (marks_of_check ret e ⟨h, rfl⟩ hl).1
  rwa [List.map_map, List.map_map] at hmarks

theorem map_fst_of_forall₂ {r r' : List (NodeId × Note)} (h : List.Forall₂ Note.Degrades r r') :
    r'.map Prod.fst = r.map Prod.fst := by
  induction h with
  | nil => rfl
  | cons hx _ ih => rw [List.map_cons, List.map_cons, hx.1, ih]

theorem exists_of_forall₂ {r r' : List (NodeId × Note)} (h : List.Forall₂ Note.Degrades r r')
    {n : NodeId} (hn : n ∈ r.map Prod.fst) :
    ∃ x x', (n, x) ∈ r ∧ (n, x') ∈ r' ∧ (x' = x ∨ x' = .expr .invalid) := by
  induction h with
  | nil => cases hn
  | @cons a b _ _ hx _ ih =>
    rw [List.map_cons, List.mem_cons] at hn
    rcases hn with rfl | hn
    · refine ⟨a.2, b.2, List.mem_cons_self .., ?_, hx.2⟩
      rw [← hx.1]
      exact List.mem_cons_self ..
    · obtain ⟨x, x', hx, hx', hd⟩ := ih hn
      exact ⟨x, x', List.mem_cons_of_mem _ hx, List.mem_cons_of_mem _ hx', hd⟩

/-- The notes of the new expression can be written where those of the old one and of the new part
can. -/
theorem recordAll_of_parted (he : s.Passes ret start E e t done)
    (hids : (e'.parts.map Expr.id).Nodup) (hnew : ∀ n ∈ (s.check ret E₀ new).notes.map Prod.fst,
      start.get? n = none)
    (hp : Checked.Parted (s.check ret E₀ part) (s.check ret E₀ new) (s.check ret E e)
      (s.check ret E e')) : ∃ done', start.recordAll (s.check ret E e').notes = .ok done' := by
  have hvacant := (Notes.vacant_of_recordAll he.recorded).2
  refine Notes.recordAll_of_vacant (hids.sublist (within_check ret e' E)) fun n hn => ?_
  obtain ⟨l, r, r', hx, hy, hr⟩ := hp.notes
  rw [hx] at hvacant
  simp only [List.map_append, List.mem_append] at hvacant
  rw [hy] at hn
  simp only [List.map_append, List.mem_append, map_fst_of_forall₂ hr] at hn
  rcases hn with (hn | hn) | hn
  · exact hvacant n (.inl (.inl hn))
  · exact hnew n hn
  · exact hvacant n (.inr hn)

/-- Live parts and types outside of the part, told by the notes. -/
theorem live_of_parted (he : s.Passes ret start E e t done) (he' : s.Passes ret start E e' t' done')
    (hnew : (s.check ret E₀ new).outcome = .ok .invalid)
    (hp : Checked.Parted (s.check ret E₀ part) (s.check ret E₀ new) (s.check ret E e)
      (s.check ret E e')) : ∃ before after,
    (e.live (Expr.diverges done.exprType?)).map Expr.id =
      before ++ (part.live (Expr.diverges done.exprType?)).map Expr.id ++ after ∧
    (e'.live (Expr.diverges done'.exprType?)).map Expr.id =
      before ++ (new.live (Expr.diverges done'.exprType?)).map Expr.id ++ after ∧
    ∀ n ∈ before ++ after,
      done'.exprType? n = done.exprType? n ∨ done'.exprType? n = some .invalid := by
  obtain ⟨u, hpart⟩ := hp.ends
  obtain ⟨l, r, r', hx, hy, hr⟩ := hp.notes
  have hall := Notes.recordedAll he.recorded
  have hall' := Notes.recordedAll he'.recorded
  have hagrees := agrees_of_recordedAll hall
  have hagrees' := agrees_of_recordedAll hall'
  refine ⟨l.map Prod.fst, r.map Prod.fst, ?_, ?_, ?_⟩
  · rw [← ids_of_check he.outcome hagrees, hx, List.map_append, List.map_append]
    rw [hx] at hagrees
    rw [ids_of_check hpart hagrees.append.1.append.2]
  · rw [← ids_of_check he'.outcome hagrees', hy, List.map_append, List.map_append,
      map_fst_of_forall₂ hr]
    rw [hy] at hagrees'
    rw [ids_of_check hnew hagrees'.append.1.append.2]
  · intro n hn
    rcases List.mem_append.mp hn with hn | hn
    · obtain ⟨⟨_, x⟩, hmem, rfl⟩ := List.mem_map.mp hn
      have hold := hall.get? _ (hx ▸ List.mem_append_left _ (List.mem_append_left _ hmem))
      have hnow := hall'.get? _ (hy ▸ List.mem_append_left _ (List.mem_append_left _ hmem))
      rw [Notes.exprType?, Notes.exprType?, hold, hnow]
      exact .inl rfl
    · obtain ⟨x, x', hmem, hmem', hd⟩ := exists_of_forall₂ hr hn
      have hold := hall.get? _ (hx ▸ List.mem_append_right _ hmem)
      have hnow := hall'.get? _ (hy ▸ List.mem_append_right _ hmem')
      rw [Notes.exprType?, Notes.exprType?, hold, hnow]
      rcases hd with rfl | rfl
      · exact .inl rfl
      · exact .inr rfl

/-- Where a live part that may complete is replaced by an invalid one, checking goes on as before:
the same nodes are live, types stay or become invalid, and of the findings only mismatches are
lost. -/
theorem contained_of_replace {p : Program} {options : BuildOptions}
    (hs : (Analysis.initial options).readFiles p.entry.toNat 0 p.files = .ok s.analysis)
    (hret : s.analysis.types.Has ret) (hE : ∀ t ∈ E, s.analysis.types.Has t)
    (hE₁ : ∀ t ∈ E₁, s.analysis.types.Has t) (he : s.Passes ret start E e t done)
    (hlive : part ∈ e.live (Expr.diverges done.exprType?))
    (hpart : done.exprType? part.id ≠ some .unreachable) {other : Notes}
    (hnew : s.Passes ret start E₁ new .invalid other) (hids : (e.parts.map Expr.id).Nodup)
    (hids' : ((Expr.replace part.id new e).parts.map Expr.id).Nodup) :
    ∃ t' done',
      s.Contained ret start E e part new (Expr.replace part.id new e) t t' done done' := by
  have hsafe : s.Safe := safe_of_filed (Program.signatures_ok hs).1 s.file s.path
  -- whatever is expected of it, the new part is invalid and gives the same notes
  have hnew' : ∀ {F : Option TypeId}, (∀ t ∈ F, s.analysis.types.Has t) →
      (s.check ret F new).outcome = .ok .invalid ∧
        (s.check ret F new).notes = (s.check ret E₁ new).notes := by
    intro F hF
    have halike := alike_check hsafe hret hret new hF hE₁
    exact ⟨halike.outcome.trans hnew.outcome, halike.notes⟩
  have hswap : Expr.Swap (Expr.diverges done.exprType?) part new e (Expr.replace part.id new e) :=
    Expr.swap_replace e hlive hids
  obtain ⟨t', hout, hdeg, _, _, ⟨E₀, hplace, hE₀, rfl, rfl⟩, hparted⟩ :=
    around_of_swap hsafe hret (fun F hF => (hnew' hF).1) hpart hswap E hE t
      ⟨he.outcome, agrees_of_recordedAll (Notes.recordedAll he.recorded)⟩
  have hvacant : ∀ n ∈ (s.check ret E₀ new).notes.map Prod.fst, start.get? n = none := by
    rw [(hnew' hE₀).2]
    exact (Notes.vacant_of_recordAll hnew.recorded).2
  obtain ⟨done', hdone'⟩ := recordAll_of_parted he hids' hvacant hparted
  have hpasses : s.Passes ret start E (Expr.replace part.id new e) t' done' := ⟨hout, hdone'⟩
  obtain ⟨l, r, r', hfound⟩ := hparted.findings
  exact ⟨t', done', hpasses, hdeg, live_of_parted he hpasses (hnew' hE₀).1 hparted, E₀, l, r, r',
    hplace, hfound⟩

end

end Scope

/-- A program that declares nothing. -/
def Program.bare : Program := ⟨[⟨"main.kiln", .numbered 0, []⟩], 0⟩

/-- The scope of a body in a program that declares nothing. -/
def Scope.bare : Scope := ⟨{ Analysis.initial .none with locals := [.empty] }, 0, "main.kiln"⟩

/-- `if (1 == 1) 1 else "x"`, whose branches do not fit. -/
def Expr.split : Expr :=
  .cond (.numbered 1)
    (.binary (.numbered 2) .equal (.number (.numbered 3) "1") (.number (.numbered 4) "1"))
    (.number (.numbered 5) "1") (some (.string (.numbered 6) "x"))

/-- A call of a function that does not exist. -/
def Expr.lost : Expr := .call (.numbered 7) (.symbol (.numbered 8) "nope") []

/-- The branches of `Expr.split` are found not to fit; with `Expr.lost` in the first nothing of that
is left. -/
theorem Scope.bare_contained : ∃ done t' done',
    bare.Passes .i32 .empty none .split .i32 done ∧
    (bare.check .i32 none .split).findings =
      [⟨"main.kiln", .start, .mismatch "i32" "*const u8"⟩] ∧
    (bare.check .i32 none (Expr.replace (Node.numbered 5).id .lost .split)).findings =
      [⟨"main.kiln", .start, .undefinedFunction "nope"⟩] ∧
    bare.Contained .i32 .empty none .split (.number (.numbered 5) "1") .lost
      (Expr.replace (Node.numbered 5).id .lost .split) .i32 t' done done' := by
  have hsplit : ∃ done, bare.Passes .i32 .empty none .split .i32 done ∧
      done.exprType? (Node.numbered 5).id = some .i32 := ⟨_, ⟨rfl, rfl⟩, rfl⟩
  have hlost : ∃ other, bare.Passes .i32 .empty none .lost .invalid other := ⟨_, rfl, rfl⟩
  obtain ⟨done, hdone, hfive⟩ := hsplit
  obtain ⟨other, hother⟩ := hlost
  have hread : (Analysis.initial .none).readFiles Program.bare.entry.toNat 0 Program.bare.files =
      .ok bare.analysis := rfl
  have hret : bare.analysis.types.Has .i32 := TypeTable.wellFormed_initial.has_builtin (by decide)
  have hpart : done.exprType? (Expr.number (.numbered 5) "1").id ≠ some .unreachable := by
    rw [show (Expr.number (.numbered 5) "1").id = (Node.numbered 5).id from rfl, hfive]
    decide
  have hlive : Expr.number (.numbered 5) "1" ∈ Expr.split.live (Expr.diverges done.exprType?) := by
    simp [Expr.split, Expr.live, Expr.liveOptional]
  obtain ⟨t', done', h⟩ := contained_of_replace hread hret (by simp) (by simp) hdone hlive hpart
    hother (by decide) (by decide)
  exact ⟨done, t', done', hdone, rfl, rfl, h⟩

end Sema
