import Sema.Proofs.Safety

/-!
Handles tell nothing. Two analyses may number types and functions differently. A file that sees the
same signatures in both is checked alike: it has the same findings, and on the same nodes notes of the
same kinds whose types are the same.
-/

namespace Sema

/-! ### Types in two tables -/

/-- The name of a type. -/
def Ty.name : Ty → String
  | .void => "void"
  | .bool => "bool"
  | .i32 => "i32"
  | .u8 => "u8"
  | .unreachable => "unreachable"
  | .invalid => "(invalid)"
  | .pointer m t => "*" ++ m.word ++ " " ++ t.name

namespace TypeTable

/-- Whether handles of two tables stand for one type. -/
def Same (t u : TypeTable) (i j : TypeId) : Prop := ∃ x, t.Denotes i x ∧ u.Denotes j x

theorem denotes_initial {i : TypeId} (hi : i.index < 7) : ∃ x, initial.Denotes i x := by
  obtain ⟨k⟩ := i
  have hk : k = 0 ∨ k = 1 ∨ k = 2 ∨ k = 3 ∨ k = 4 ∨ k = 5 ∨ k = 6 := by
    simp only at hi
    omega
  rcases hk with rfl | rfl | rfl | rfl | rfl | rfl | rfl
  · exact ⟨_, .void⟩
  · exact ⟨_, .bool⟩
  · exact ⟨_, .i32⟩
  · exact ⟨_, .u8⟩
  · exact ⟨_, .unreachable⟩
  · exact ⟨_, .invalid⟩
  · exact ⟨_, wellFormed_initial.denotes_stringLiteral⟩

/-- Handles of the same types in the same order stand for one type each. -/
theorem forall₂_same {t u : TypeTable} : ∀ {is js : List TypeId} {xs : List Ty},
    is.Forall₂ t.Denotes xs → xs.Forall₂ (fun x j => u.Denotes j x) js → is.Forall₂ (t.Same u) js
  | _, _, _, .nil, .nil => .nil
  | _, _, _, .cons hi his, .cons hj hjs => .cons ⟨_, hi, hj⟩ (forall₂_same his hjs)

/-- An entry has the name of its type. -/
theorem WellFormed.name?_of_denotes {t : TypeTable} (h : t.WellFormed) {i : TypeId} {x : Ty}
    (hi : t.Denotes i x) : t.name? i = some x.name := by
  induction hi with
  | pointer he _ ih =>
    obtain ⟨m, n, heq, -, hn⟩ := h.eq_pointer_of_shape he rfl
    obtain ⟨rfl, -, rfl⟩ := pointer_injective heq
    rw [ih, Option.some.injEq] at hn
    rw [name?, he, Option.map_some, TypeEntry.pointer, ← hn, Ty.name]
  | _ =>
    rw [name?, h.get?_builtin (by decide)]
    rfl

section

variable {t u : TypeTable} (ht : t.WellFormed) (hu : u.WellFormed) {i j k l : TypeId}
include ht hu

theorem same_builtin (hi : i.index < 7) : t.Same u i i := by
  obtain ⟨x, hx⟩ := denotes_initial hi
  exact ⟨x, hx.mono ht.builtin, hx.mono hu.builtin⟩

theorem Same.eq_iff (h : t.Same u i j) (h' : t.Same u k l) : i = k ↔ j = l := by
  obtain ⟨x, hi, hj⟩ := h
  obtain ⟨y, hk, hl⟩ := h'
  rw [ht.denotes_iff_eq hi hk, hu.denotes_iff_eq hj hl]

theorem Same.name?_eq (h : t.Same u i j) : t.name? i = u.name? j := by
  obtain ⟨x, hi, hj⟩ := h
  rw [ht.name?_of_denotes hi, hu.name?_of_denotes hj]

theorem Same.accepts_eq (h : t.Same u i j) (h' : t.Same u k l) : i.accepts k = j.accepts l := by
  have hinv : t.Same u .invalid .invalid := same_builtin ht hu (by decide)
  have hunr : t.Same u .unreachable .unreachable := same_builtin ht hu (by decide)
  simp only [TypeId.accepts, h.eq_iff ht hu h', h.eq_iff ht hu hinv, h'.eq_iff ht hu hinv,
    h'.eq_iff ht hu hunr]

end

end TypeTable

/-- Whether notes are of one kind and their types are the same. -/
structure Note.Same (t u : TypeTable) (x y : Note) : Prop where
  kind : x.kind = y.kind
  types : x.types.Forall₂ (t.Same u) y.types

/-! ### Runs that mirror each other -/

namespace Checked

variable {α β γ δ : Type} {t u : TypeTable} {R : α → β → Prop} {Q : γ → δ → Prop}

/-- Whether two runs give notes of the same types on the same nodes and the same findings, and end
alike. -/
structure Mirrors (t u : TypeTable) (R : α → β → Prop) (x : Checked α) (y : Checked β) : Prop where
  notes : x.notes.Forall₂ (fun r s => r.1 = s.1 ∧ r.2.Same t u s.2) y.notes
  findings : x.findings = y.findings
  outcome : (∃ v w, x.outcome = .ok v ∧ y.outcome = .ok w ∧ R v w) ∨
    ∃ e, x.outcome = .error e ∧ y.outcome = .error e

namespace Mirrors

theorem bind {x : Checked α} {y : Checked β} {f : α → Checked γ} {g : β → Checked δ}
    (h : x.Mirrors t u R y) (hf : ∀ v w, R v w → (f v).Mirrors t u Q (g w)) :
    (x >>= f).Mirrors t u Q (y >>= g) := by
  rw [bind_eq, bind_eq, Checked.bind, Checked.bind]
  rcases h.outcome with ⟨v, w, hv, hw, hR⟩ | ⟨e, hx, hy⟩
  · have hrest := hf v w hR
    rw [hv, hw]
    exact ⟨List.rel_append h.notes hrest.notes, congrArg₂ _ h.findings hrest.findings,
      hrest.outcome⟩
  · rw [hx, hy]
    exact ⟨h.notes, h.findings, .inr ⟨e, rfl, rfl⟩⟩

theorem pure {v : α} {w : β} (h : R v w) :
    (Checked.pure v).Mirrors t u R (Checked.pure w) :=
  ⟨.nil, rfl, .inl ⟨v, w, rfl, rfl, h⟩⟩

theorem fail (e : AnalysisError) : (Checked.fail e).Mirrors t u R (Checked.fail e) :=
  ⟨.nil, rfl, .inr ⟨e, rfl, rfl⟩⟩

theorem note (n : NodeId) {x y : Note} (h : x.Same t u y) :
    (Checked.note n x).Mirrors t u (fun _ _ => True) (Checked.note n y) :=
  ⟨.cons ⟨rfl, h⟩ .nil, rfl, .inl ⟨(), (), rfl, rfl, trivial⟩⟩

theorem report (file : String) (pos : Position) (issue : Issue) :
    (Checked.report file pos issue).Mirrors t u (fun _ _ => True) (Checked.report file pos issue) :=
  ⟨.nil, rfl, .inl ⟨(), (), rfl, rfl, trivial⟩⟩

theorem ofExcept {ε : Type} (f : ε → AnalysisError) (r : Except ε α) :
    (Checked.ofExcept f r).Mirrors t u (fun v w => v = w ∧ r = .ok v) (Checked.ofExcept f r) := by
  cases r with
  | ok v => exact pure ⟨rfl, rfl⟩
  | error e => exact fail _

theorem forM {f : γ → Checked Unit} {g : δ → Checked Unit} :
    ∀ {l : List γ} {m : List δ}, l.Forall₂ (fun v w => (f v).Mirrors t u (fun _ _ => True) (g w)) m →
      (l.forM f).Mirrors t u (fun _ _ => True) (m.forM g)
  | _, _, .nil => pure trivial
  | _, _, .cons h hl => h.bind fun _ _ _ => forM hl

/-- Runs that mirror each other end with a value both or not at all. -/
theorem outcome_iff {x y : Checked Unit} (h : x.Mirrors t u (fun _ _ => True) y) :
    x.outcome = .ok () ↔ y.outcome = .ok () := by
  rcases h.outcome with ⟨v, w, hv, hw, -⟩ | ⟨e, hx, hy⟩
  · simp [hv, hw]
  · simp [hx, hy]

end Mirrors

end Checked

/-! ### Bodies -/

namespace Scope

open Checked (Mirrors)
open TypeTable (same_builtin)

/-- Whether a scope sees the functions that are told, by handles of their types. -/
structure Sees (s : Scope) (Γ : Env Ty) : Prop where
  types : s.analysis.types.WellFormed
  linked : s.analysis.Linked
  within : (s.analysis.env s.file).Within s.analysis.types.Denotes Γ
  all : Γ.Within (fun x i => s.analysis.types.Denotes i x) (s.analysis.env s.file)

/-- Whether two scopes are of one path and see the same functions. -/
structure Twin (s s' : Scope) : Prop where
  path : s.path = s'.path
  sees : ∃ Γ, s.Sees Γ ∧ s'.Sees Γ

/-- Whether handles of two scopes stand for one type. -/
abbrev Same (s s' : Scope) : TypeId → TypeId → Prop := s.analysis.types.Same s'.analysis.types

theorem forall₂_some {s s' : Scope} : ∀ {is js : List TypeId}, is.Forall₂ (s.Same s') js →
    (is.map some).Forall₂ (Option.Rel (s.Same s')) (js.map some)
  | _, _, .nil => .nil
  | _, _, .cons h hs => .cons (.some h) (forall₂_some hs)

/-- Whether runs in two scopes mirror each other. -/
abbrev Mirrors {α β : Type} (s s' : Scope) (R : α → β → Prop) : Checked α → Checked β → Prop :=
  Checked.Mirrors s.analysis.types s'.analysis.types R

namespace Twin

variable {s s' : Scope} {E E' : Option TypeId} {ret ret' i j : TypeId} (h : s.Twin s')
include h

theorem builtin (hi : i.index < 7) : s.Same s' i i := by
  obtain ⟨Γ, hs, hs'⟩ := h.sees
  exact same_builtin hs.types hs'.types hi

theorem eq_unreachable_iff (hi : s.Same s' i j) : i = .unreachable ↔ j = .unreachable := by
  obtain ⟨Γ, hs, hs'⟩ := h.sees
  exact hi.eq_iff hs.types hs'.types (h.builtin (by decide))

theorem accepts_eq {k l : TypeId} (hi : s.Same s' i j) (hk : s.Same s' k l) :
    i.accepts k = j.accepts l := by
  obtain ⟨Γ, hs, hs'⟩ := h.sees
  exact hi.accepts_eq hs.types hs'.types hk

theorem getD_void {v w : Option TypeId} (hv : Option.Rel (s.Same s') v w) :
    s.Same s' (v.getD .void) (w.getD .void) := by
  cases hv with
  | none => exact h.builtin (by decide)
  | some hv => exact hv

/-- What is wanted of the missing or present branch of a conditional. -/
theorem wanted {v w : Option TypeId} (hE : Option.Rel (s.Same s') E E')
    (hv : Option.Rel (s.Same s') v w) (hi : s.Same s' i j) : Option.Rel (s.Same s')
      (if v.isSome && E.isNone && i ≠ .unreachable then some i else E)
      (if w.isSome && E'.isNone && j ≠ .unreachable then some j else E') := by
  have hsome : v.isSome = w.isSome := by cases hv <;> rfl
  have hnone : E.isNone = E'.isNone := by cases hE <;> rfl
  have hne : decide (i ≠ .unreachable) = decide (j ≠ .unreachable) :=
    decide_eq_decide.mpr (not_congr (h.eq_unreachable_iff hi))
  rw [hsome, hnone, hne]
  split
  · exact .some hi
  · exact hE

theorem unsupported_eq (pos : Position) : s.unsupported pos = s'.unsupported pos := by
  funext construct
  rw [unsupported, unsupported, h.path]

theorem mirrors_unsupported {α β : Type} {R : α → β → Prop} (pos : Position) (construct : String) :
    s.Mirrors s' R (.fail (s.unsupported pos construct)) (.fail (s'.unsupported pos construct)) := by
  rw [h.unsupported_eq]
  exact .fail _

/-- A name is unknown in both scopes or has the same signature. -/
theorem lookupFunction_cases (name : String) :
    (s.analysis.lookupFunction s.file name = none ∧
      s'.analysis.lookupFunction s'.file name = none) ∨
    ∃ (k k' : FunctionId) (sig sig' : Signature TypeId),
      s.analysis.lookupFunction s.file name = some k ∧
      s'.analysis.lookupFunction s'.file name = some k' ∧
      s.signature k = .pure (sig.params.map some, sig.result) ∧
      s'.signature k' = .pure (sig'.params.map some, sig'.result) ∧
      sig.params.Forall₂ (s.Same s') sig'.params ∧ s.Same s' sig.result sig'.result := by
  obtain ⟨Γ, hs, hs'⟩ := h.sees
  rcases hs.linked.env_cases s.file s.path name with ⟨hl, henv⟩ | ⟨k, sig, hl, henv, hsig⟩
  · rcases hs'.linked.env_cases s'.file s'.path name with ⟨hl', -⟩ | ⟨k', sig', -, henv', -⟩
    · exact .inl ⟨hl, hl'⟩
    · obtain ⟨x, hx, -⟩ := hs'.within name sig' henv'
      obtain ⟨sig, hsig, -⟩ := hs.all name x hx
      rw [henv] at hsig
      cases hsig
  · obtain ⟨x, hx, hparams, hresult⟩ := hs.within name sig henv
    obtain ⟨sig', hsome, hparams', hresult'⟩ := hs'.all name x hx
    rcases hs'.linked.env_cases s'.file s'.path name with ⟨-, hnone⟩ | ⟨k', sig'', hl', henv', hsig'⟩
    · rw [hnone] at hsome
      cases hsome
    · obtain rfl := Option.some.inj (henv'.symm.trans hsome)
      exact .inr ⟨k, k', sig, sig'', hl, hl', hsig, hsig',
        TypeTable.forall₂_same hparams hparams', x.result, hresult, hresult'⟩

theorem mirrors_report (pos : Position) (issue : Issue) :
    s.Mirrors s' (fun _ _ => True) (s.report pos issue) (s'.report pos issue) := by
  rw [report, report, h.path]
  exact .report _ _ _

theorem mirrors_typeName (hi : s.Same s' i j) : s.Mirrors s' Eq (s.typeName i) (s'.typeName j) := by
  obtain ⟨Γ, hs, hs'⟩ := h.sees
  obtain ⟨x, hx, hx'⟩ := hi
  rw [typeName, typeName, hs.types.name?_of_denotes hx, hs'.types.name?_of_denotes hx']
  exact .pure rfl

theorem mirrors_compare (pos : Position) (hE : Option.Rel (s.Same s') E E') (hi : s.Same s' i j) :
    s.Mirrors s' (fun _ _ => True) (s.compare pos E i) (s'.compare pos E' j) := by
  cases hE with
  | none => exact .pure trivial
  | some he =>
    rw [compare, compare, h.accepts_eq he hi]
    split
    · exact .pure trivial
    · refine (h.mirrors_typeName he).bind fun expected _ hexpected => ?_
      refine (h.mirrors_typeName hi).bind fun actual _ hactual => ?_
      rw [← hexpected, ← hactual]
      exact h.mirrors_report _ _

theorem mirrors_conclude (node : Node) (hE : Option.Rel (s.Same s') E E') (hi : s.Same s' i j) :
    s.Mirrors s' (s.Same s') (s.conclude node E i) (s'.conclude node E' j) := by
  have hsame : Note.Same s.analysis.types s'.analysis.types (.expr i) (.expr j) :=
    ⟨rfl, .cons hi .nil⟩
  refine (h.mirrors_compare node.pos hE hi).bind fun _ _ _ => ?_
  exact (Checked.Mirrors.note node.id hsame).bind fun _ _ _ => .pure hi

theorem mirrors_concludeReturn (node : Node) (hret : s.Same s' ret ret') (hi : s.Same s' i j) :
    s.Mirrors s' (fun _ _ => True) (s.concludeReturn node ret i) (s'.concludeReturn node ret' j) := by
  unfold concludeReturn
  rw [if_congr (h.eq_unreachable_iff hi) rfl rfl]
  split
  · exact (h.mirrors_report _ _).bind fun _ _ _ =>
      h.mirrors_compare node.pos (.some hret) (h.builtin (by decide))
  · exact h.mirrors_compare node.pos (.some hret) hi

omit h

mutual

/-- The checks of an expression in twin scopes mirror each other. -/
theorem mirrors_check (h : s.Twin s') (hret : s.Same s' ret ret') :
    ∀ (e : Expr) {E E' : Option TypeId}, Option.Rel (s.Same s') E E' →
      s.Mirrors s' (s.Same s') (s.check ret E e) (s'.check ret' E' e)
  | .number n _, _, _, hE => h.mirrors_conclude n hE (h.builtin (by decide))
  | .string n _, _, _, hE => h.mirrors_conclude n hE (h.builtin (by decide))
  | .unreachable n, _, _, hE => h.mirrors_conclude n hE (h.builtin (by decide))
  | .void n, _, _, hE => h.mirrors_conclude n hE (h.builtin (by decide))
  | .symbol _ _, _, _, _ => h.mirrors_unsupported _ _
  | .cast _ _ _, _, _, _ => h.mirrors_unsupported _ _
  | .binary n op l r, _, _, hE => by
    rw [check, check, h.unsupported_eq]
    refine (Checked.Mirrors.ofExcept _ op.rule).bind fun rule _ hrule => ?_
    obtain ⟨rfl, hr⟩ := hrule
    have hoperand := h.builtin (BinaryOp.rule_builtin hr).1
    refine (mirrors_check h hret l (.some hoperand)).bind fun _ _ _ => ?_
    refine (mirrors_check h hret r (.some hoperand)).bind fun _ _ _ => ?_
    exact h.mirrors_conclude n hE (h.builtin (BinaryOp.rule_builtin hr).2)
  | .unary n op e, _, _, hE => by
    rw [check, check, h.unsupported_eq]
    refine (Checked.Mirrors.ofExcept _ op.rule).bind fun rule _ hrule => ?_
    obtain ⟨rfl, hr⟩ := hrule
    have hoperand := h.builtin (UnaryOp.rule_builtin hr).1
    refine (mirrors_check h hret e (.some hoperand)).bind fun _ _ _ => ?_
    exact h.mirrors_conclude n hE (h.builtin (UnaryOp.rule_builtin hr).2)
  | .block n l, _, _, hE => by
    rw [check, check]
    refine (mirrors_checkBlock h hret l (h.builtin (by decide))).bind fun _ _ ht => ?_
    exact h.mirrors_conclude n hE ht
  | .ret n v, _, _, hE => by
    rw [check, check]
    refine (mirrors_checkOptional h hret v (.some hret)).bind fun _ _ hv => ?_
    refine (h.mirrors_concludeReturn n hret (h.getD_void hv)).bind fun _ _ _ => ?_
    exact h.mirrors_conclude n hE (h.builtin (by decide))
  | .cond n c th el, E, E', hE => by
    rw [check, check]
    refine (mirrors_check h hret c (.some (h.builtin (by decide)))).bind fun _ _ _ => ?_
    refine (mirrors_checkOptional h hret el hE).bind fun v w hv => ?_
    refine (mirrors_check h hret th hE).bind fun i j ht => ?_
    refine (h.mirrors_compare n.pos (h.wanted hE hv ht) (h.getD_void hv)).bind fun _ _ _ => ?_
    exact h.mirrors_conclude n hE ht
  | .call n callee args, _, _, hE => by
    cases callee with
    | symbol m name =>
      rw [check, check]
      rcases h.lookupFunction_cases name with
        ⟨hl, hl'⟩ | ⟨k, k', sig, sig', hl, hl', hsig, hsig', hparams, hresult⟩
      · rw [hl, hl']
        refine (h.mirrors_report _ _).bind fun _ _ _ => ?_
        refine (mirrors_checkArgs h hret args .nil).bind fun _ _ _ => ?_
        exact h.mirrors_conclude n hE (h.builtin (by decide))
      · simp only [hl, hl', hsig, hsig']
        refine Checked.Mirrors.bind (R := fun f g => f = (sig.params.map some, sig.result) ∧
          g = (sig'.params.map some, sig'.result)) (.pure ⟨rfl, rfl⟩) ?_
        rintro _ _ ⟨rfl, rfl⟩
        have hargs := (mirrors_checkArgs h hret args (forall₂_some hparams)).bind fun _ _ _ =>
          h.mirrors_conclude n hE hresult
        simp only [List.length_map, hparams.length_eq]
        split
        · exact (h.mirrors_report _ _).bind fun _ _ _ => hargs
        · exact hargs
    | _ => exact h.mirrors_unsupported _ _

theorem mirrors_checkOptional (h : s.Twin s') (hret : s.Same s' ret ret') :
    ∀ (e : Option Expr) {E E' : Option TypeId}, Option.Rel (s.Same s') E E' →
      s.Mirrors s' (Option.Rel (s.Same s')) (s.checkOptional ret E e) (s'.checkOptional ret' E' e)
  | none, _, _, _ => .pure .none
  | some e, _, _, hE => (mirrors_check h hret e hE).bind fun _ _ ht => .pure (.some ht)

theorem mirrors_checkBlock (h : s.Twin s') (hret : s.Same s' ret ret') :
    ∀ (l : List Expr) {i j : TypeId}, s.Same s' i j →
      s.Mirrors s' (s.Same s') (s.checkBlock ret i l) (s'.checkBlock ret' j l)
  | [], _, _, hi => .pure hi
  | e :: rest, i, j, hi => by
    rw [checkBlock, checkBlock, if_congr (h.eq_unreachable_iff hi) rfl rfl]
    split
    · dsimp only
      split
      · exact (h.mirrors_report _ _).bind fun _ _ _ => mirrors_checkBlock h hret rest hi
      · exact mirrors_checkBlock h hret rest hi
    · exact (mirrors_check h hret e .none).bind fun _ _ ht => mirrors_checkBlock h hret rest ht

theorem mirrors_checkArgs (h : s.Twin s') (hret : s.Same s' ret ret') :
    ∀ (l : List Expr) {ps qs : List (Option TypeId)}, ps.Forall₂ (Option.Rel (s.Same s')) qs →
      s.Mirrors s' (fun _ _ => True) (s.checkArgs ret ps l) (s'.checkArgs ret' qs l)
  | [], _, _, _ => .pure trivial
  | e :: rest, _, _, .nil => by
    rw [checkArgs, checkArgs]
    exact (mirrors_check h hret e .none).bind fun _ _ _ => mirrors_checkArgs h hret rest .nil
  | e :: rest, _, _, .cons hp hps => by
    rw [checkArgs, checkArgs]
    exact (mirrors_check h hret e hp).bind fun _ _ _ => mirrors_checkArgs h hret rest hps

end

/-- A definition is checked alike where it is left out in both scopes, or kept in both with the same
type for its result. -/
theorem mirrors_checkDefinition (h : s.Twin s') {d : FnDef}
    (hskip : s.analysis.notes.isSkipped d.node.id = s'.analysis.notes.isSkipped d.node.id)
    (hret : s.analysis.notes.isSkipped d.node.id = false → ∃ i j,
      s.analysis.notes.resolvedType? d.proto.returnType.node.id = some i ∧
      s'.analysis.notes.resolvedType? d.proto.returnType.node.id = some j ∧ s.Same s' i j) :
    s.Mirrors s' (fun _ _ => True) (s.checkDefinition d) (s'.checkDefinition d) := by
  rw [checkDefinition, checkDefinition, ← hskip]
  split
  · exact .pure trivial
  · next hkept =>
    obtain ⟨i, j, hi, hj, hij⟩ := hret (Bool.not_eq_true _ ▸ hkept)
    rw [resolvedType, resolvedType, hi, hj]
    refine Checked.Mirrors.bind (R := fun v w => v = i ∧ w = j) (.pure ⟨rfl, rfl⟩) ?_
    rintro _ _ ⟨rfl, rfl⟩
    exact (mirrors_check h hij d.body (.some hij)).bind fun _ _ ht => .note _ ⟨rfl, .cons ht .nil⟩

theorem mirrors_checkDecl (h : s.Twin s') {d : Decl}
    (hdef : ∀ f, d = .fnDef f →
      s.analysis.notes.isSkipped f.node.id = s'.analysis.notes.isSkipped f.node.id ∧
      (s.analysis.notes.isSkipped f.node.id = false → ∃ i j,
        s.analysis.notes.resolvedType? f.proto.returnType.node.id = some i ∧
        s'.analysis.notes.resolvedType? f.proto.returnType.node.id = some j ∧ s.Same s' i j)) :
    s.Mirrors s' (fun _ _ => True) (s.checkDecl d) (s'.checkDecl d) := by
  cases d with
  | fnDef f => exact h.mirrors_checkDefinition (hdef f rfl).1 (hdef f rfl).2
  | use u => exact .forM (List.forall₂_same.mpr fun _ _ => h.mirrors_report _ _)
  | externalBlock b => exact .pure trivial
  | rootExport e => exact .pure trivial

end Twin

end Scope

end Sema
