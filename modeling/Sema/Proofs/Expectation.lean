import Sema.Proofs.Safety

/-!
What an expectation is good for. An expression has one type and one list of notes whatever is
expected of it, and whatever its function returns; only the mismatches that are found may differ.
-/

namespace Sema

namespace Checked

variable {α β : Type}

/-- Whether two runs differ in the mismatches found at most. -/
structure Alike (x y : Checked α) : Prop where
  outcome : x.outcome = y.outcome
  notes : x.notes = y.notes
  findings : x.findings.filter (!·.isMismatch) = y.findings.filter (!·.isMismatch)

namespace Alike

variable {x y z : Checked α} {f g : α → Checked β}

theorem refl (x : Checked α) : x.Alike x := ⟨rfl, rfl, rfl⟩

theorem symm (h : x.Alike y) : y.Alike x := ⟨h.outcome.symm, h.notes.symm, h.findings.symm⟩

theorem trans (h : x.Alike y) (h' : y.Alike z) : x.Alike z :=
  ⟨h.outcome.trans h'.outcome, h.notes.trans h'.notes, h.findings.trans h'.findings⟩

theorem bind (h : x.Alike y) (hf : ∀ v, x.outcome = .ok v → (f v).Alike (g v)) :
    (x >>= f).Alike (y >>= g) := by
  rw [bind_eq, bind_eq, Checked.bind, Checked.bind, ← h.outcome]
  cases hx : x.outcome with
  | error e => exact ⟨rfl, h.notes, h.findings⟩
  | ok v =>
    have hv := hf v hx
    refine ⟨hv.outcome, ?_, ?_⟩
    · exact congrArg₂ (· ++ ·) h.notes hv.notes
    · dsimp only
      rw [List.filter_append, List.filter_append, h.findings, hv.findings]

end Alike

end Checked

namespace Scope

open Checked (Alike)

variable {s : Scope}

/-- A comparison of types of the table does nothing but find a mismatch. -/
theorem alike_compare {pos : Position} {E : Option TypeId} {t : TypeId}
    (hE : ∀ e ∈ E, s.analysis.types.Has e) (ht : s.analysis.types.Has t) :
    (s.compare pos E t).Alike (.pure ()) := by
  cases E with
  | none => exact .refl _
  | some e =>
    obtain ⟨expected, he⟩ := TypeTable.has_iff_name?.mp (hE e rfl)
    obtain ⟨actual, ha⟩ := TypeTable.has_iff_name?.mp ht
    rw [compare, typeName, typeName, he, ha]
    split
    · exact .refl _
    · exact ⟨rfl, rfl, rfl⟩

section

variable {ret ret' : TypeId} {E E' : Option TypeId} {t : TypeId}

theorem alike_conclude {node : Node} (hE : ∀ e ∈ E, s.analysis.types.Has e)
    (hE' : ∀ e ∈ E', s.analysis.types.Has e) (ht : s.analysis.types.Has t) :
    (s.conclude node E t).Alike (s.conclude node E' t) :=
  ((alike_compare hE ht).trans (alike_compare hE' ht).symm).bind fun _ _ => .refl _

theorem alike_concludeReturn {node : Node} (h : s.Safe) (hret : s.analysis.types.Has ret)
    (hret' : s.analysis.types.Has ret') (ht : s.analysis.types.Has t) :
    (s.concludeReturn node ret t).Alike (s.concludeReturn node ret' t) := by
  have hcompare : ∀ {u}, s.analysis.types.Has u →
      (s.compare node.pos (some ret) u).Alike (s.compare node.pos (some ret') u) := fun hu =>
    (alike_compare hret.forall_mem_some hu).trans (alike_compare hret'.forall_mem_some hu).symm
  unfold concludeReturn
  split
  · exact (Alike.refl _).bind fun _ _ => hcompare (h.types.has_builtin (by decide))
  · exact hcompare ht

mutual

/-- What is expected of an expression and of its function decides over mismatches alone. -/
theorem alike_check (h : s.Safe) (hret : s.analysis.types.Has ret)
    (hret' : s.analysis.types.Has ret') : ∀ (e : Expr) {E E' : Option TypeId},
    (∀ t ∈ E, s.analysis.types.Has t) → (∀ t ∈ E', s.analysis.types.Has t) →
      (s.check ret E e).Alike (s.check ret' E' e)
  | .number _ _, _, _, hE, hE' => alike_conclude hE hE' (h.types.has_builtin (by decide))
  | .string _ _, _, _, hE, hE' => alike_conclude hE hE' (h.types.has_builtin (by decide))
  | .unreachable _, _, _, hE, hE' => alike_conclude hE hE' (h.types.has_builtin (by decide))
  | .void _, _, _, hE, hE' => alike_conclude hE hE' (h.types.has_builtin (by decide))
  | .symbol _ _, _, _, _, _ => .refl _
  | .cast _ _ _, _, _, _, _ => .refl _
  | .binary n op l r, E, E', hE, hE' => by
    rw [check, check]
    cases hop : op.rule with
    | error c => exact .refl _
    | ok rule =>
      have hrule := BinaryOp.rule_builtin hop
      have hoperand := (h.types.has_builtin hrule.1).forall_mem_some
      refine (Alike.refl (.pure rule)).bind ?_
      rintro _ ⟨⟩
      refine (alike_check h hret hret' l hoperand hoperand).bind fun _ _ => ?_
      refine (alike_check h hret hret' r hoperand hoperand).bind fun _ _ => ?_
      exact alike_conclude hE hE' (h.types.has_builtin hrule.2)
  | .unary n op e, E, E', hE, hE' => by
    rw [check, check]
    cases hop : op.rule with
    | error c => exact .refl _
    | ok rule =>
      have hrule := UnaryOp.rule_builtin hop
      have hoperand := (h.types.has_builtin hrule.1).forall_mem_some
      refine (Alike.refl (.pure rule)).bind ?_
      rintro _ ⟨⟩
      refine (alike_check h hret hret' e hoperand hoperand).bind fun _ _ => ?_
      exact alike_conclude hE hE' (h.types.has_builtin hrule.2)
  | .block n l, E, E', hE, hE' => by
    have hvoid : s.analysis.types.Has .void := h.types.has_builtin (by decide)
    rw [check, check]
    refine (alike_checkBlock h hret hret' l hvoid).bind fun t ht => ?_
    exact alike_conclude hE hE' ((ensures_checkBlock h hret l hvoid).value t ht)
  | .ret n v, E, E', hE, hE' => by
    have hsome := hret.forall_mem_some
    rw [check, check]
    refine (alike_checkOptional h hret hret' v hsome hret'.forall_mem_some).bind fun t ht => ?_
    have hvalue : s.analysis.types.Has (t.getD .void) :=
      TypeTable.has_getD ((ensures_checkOptional h hret v hsome).value t ht)
        (h.types.has_builtin (by decide))
    refine (alike_concludeReturn h hret hret' hvalue).bind fun _ _ => ?_
    exact alike_conclude hE hE' (h.types.has_builtin (by decide))
  | .cond n c th el, E, E', hE, hE' => by
    have hbool : ∀ t ∈ some TypeId.bool, s.analysis.types.Has t :=
      TypeTable.Has.forall_mem_some (h.types.has_builtin (by decide))
    rw [check, check]
    refine (alike_check h hret hret' c hbool hbool).bind fun _ _ => ?_
    refine (alike_checkOptional h hret hret' el hE hE').bind fun u hu => ?_
    refine (alike_check h hret hret' th hE hE').bind fun t ht => ?_
    have hthen : s.analysis.types.Has t := (ensures_check h hret th hE).value t ht
    have helse : s.analysis.types.Has (u.getD .void) :=
      TypeTable.has_getD ((ensures_checkOptional h hret el hE).value u hu)
        (h.types.has_builtin (by decide))
    have hwanted : ∀ {F : Option TypeId} {b : Bool}, (∀ t ∈ F, s.analysis.types.Has t) →
        ∀ e ∈ if b then some t else F, s.analysis.types.Has e := by
      intro F b hF
      cases b with
      | false => exact hF
      | true => exact hthen.forall_mem_some
    refine Alike.bind ?_ fun _ _ => alike_conclude hE hE' hthen
    exact (alike_compare (hwanted hE) helse).trans (alike_compare (hwanted hE') helse).symm
  | .call n callee args, E, E', hE, hE' => by
    cases callee with
    | symbol m name =>
      rw [check, check]
      rcases h.linked.env_cases s.file s.path name with ⟨hl, -⟩ | ⟨k, sig, hl, henv, hsig⟩
      · rw [hl]
        refine (Alike.refl _).bind fun _ _ => ?_
        refine (alike_checkArgs h hret hret' args (by simp)).bind fun _ _ => ?_
        exact alike_conclude hE hE' (h.types.has_builtin (by decide))
      · obtain ⟨hparams, hresult⟩ := h.signatures name sig henv
        have hargs : ∀ p ∈ sig.params.map some, ∀ t ∈ p, s.analysis.types.Has t := by
          simpa using hparams
        have hrest : (s.checkArgs ret (sig.params.map some) args >>=
            fun _ => s.conclude n E sig.result).Alike
              (s.checkArgs ret' (sig.params.map some) args >>=
                fun _ => s.conclude n E' sig.result) :=
          (alike_checkArgs h hret hret' args hargs).bind fun _ _ => alike_conclude hE hE' hresult
        simp only [hl, hsig]
        refine (Alike.refl (.pure (sig.params.map some, sig.result))).bind ?_
        rintro _ ⟨⟩
        dsimp only
        split
        · exact (Alike.refl _).bind fun _ _ => hrest
        · exact hrest
    | _ => exact .refl _

theorem alike_checkOptional (h : s.Safe) (hret : s.analysis.types.Has ret)
    (hret' : s.analysis.types.Has ret') : ∀ (e : Option Expr) {E E' : Option TypeId},
    (∀ t ∈ E, s.analysis.types.Has t) → (∀ t ∈ E', s.analysis.types.Has t) →
      (s.checkOptional ret E e).Alike (s.checkOptional ret' E' e)
  | none, _, _, _, _ => .refl _
  | some e, _, _, hE, hE' => (alike_check h hret hret' e hE hE').bind fun _ _ => .refl _

theorem alike_checkBlock (h : s.Safe) (hret : s.analysis.types.Has ret)
    (hret' : s.analysis.types.Has ret') : ∀ (l : List Expr) {last : TypeId},
    s.analysis.types.Has last → (s.checkBlock ret last l).Alike (s.checkBlock ret' last l)
  | [], _, _ => .refl _
  | e :: rest, last, hlast => by
    rw [checkBlock, checkBlock]
    split
    · have hrest := alike_checkBlock h hret hret' rest hlast
      dsimp only
      split
      · exact (Alike.refl _).bind fun _ _ => hrest
      · exact hrest
    · refine (alike_check h hret hret' e (by simp) (by simp)).bind fun t ht => ?_
      exact alike_checkBlock h hret hret' rest ((ensures_check h hret e (by simp)).value t ht)

theorem alike_checkArgs (h : s.Safe) (hret : s.analysis.types.Has ret)
    (hret' : s.analysis.types.Has ret') : ∀ (l : List Expr) {params : List (Option TypeId)},
    (∀ p ∈ params, ∀ t ∈ p, s.analysis.types.Has t) →
      (s.checkArgs ret params l).Alike (s.checkArgs ret' params l)
  | [], _, _ => .refl _
  | e :: rest, params, hp => by
    have hhead := TypeTable.has_head?_join hp
    rw [checkArgs, checkArgs]
    refine (alike_check h hret hret' e hhead hhead).bind fun _ _ => ?_
    exact alike_checkArgs h hret hret' rest fun p hpm => hp p (List.mem_of_mem_tail hpm)

end

end

end Scope

/-! ### In the middle of the bodies -/

/-- The type of an expression, and what becomes of an analysis when the expression is checked. -/
def Analysis.checkExpr (a : Analysis) (file : Nat) (path : String) (returns : TypeId)
    (expected : Option TypeId) (e : Expr) : Except AnalysisError (TypeId × Analysis) := do
  let checked := Scope.check ⟨a, file, path⟩ returns expected e
  let notes ← a.notes.recordAll checked.notes
  let type ← checked.outcome
  return (type, { a with notes := notes, findings := a.findings ++ checked.findings })

namespace Program

variable {p : Program} {options : BuildOptions} {b : Analysis}

/-- Whether an analysis is met while the bodies of a program are checked: to what the signatures have
left, the first notes and findings of the bodies are added. -/
def Reaches (p : Program) (options : BuildOptions) (b : Analysis) : Prop :=
  ∃ s written found notes,
    (Analysis.initial options).readFiles p.entry.toNat 0 p.files = .ok s ∧
    written <+: (s.checkFiles 0 p.files).notes ∧ found <+: (s.checkFiles 0 p.files).findings ∧
    s.notes.recordAll written = .ok notes ∧
    b = { s with notes := notes, findings := s.findings ++ found }

/-- All bodies may be checked. -/
theorem reaches_of_absorb {s : Analysis}
    (hs : (Analysis.initial options).readFiles p.entry.toNat 0 p.files = .ok s)
    (hb : s.absorb (s.checkFiles 0 p.files) = .ok b) : p.Reaches options b := by
  simp only [Analysis.absorb, bind_eq_ok_iff, pure_eq_ok_iff] at hb
  obtain ⟨notes, hnotes, -, -, rfl⟩ := hb
  exact ⟨s, _, _, notes, hs, List.prefix_refl _, List.prefix_refl _, hnotes, rfl⟩

/-- The notes and the findings of other bodies take nothing from what a body needs. -/
theorem Reaches.safe (h : p.Reaches options b) (file : Nat) (path : String) :
    Scope.Safe ⟨b, file, path⟩ := by
  obtain ⟨s, written, found, notes, hs, -, -, hnotes, rfl⟩ := h
  have hsafe := Scope.safe_of_filed (signatures_ok hs).1 file path
  have hwithin := (Notes.recordedAll hnotes).within
  refine ⟨hsafe.types, fun file name k hk => ?_, fun name sig hsig => ?_⟩
  · obtain ⟨f, hf, hresolved⟩ := hsafe.linked file name k hk
    exact ⟨f, hf, fun t ht => (hresolved t ht).imp fun _ hi => hwithin.resolvedType? hi⟩
  · rw [hsafe.linked.env_eq hwithin] at hsig
    exact hsafe.signatures name sig hsig

/-- Whatever is expected of an expression and returned by its function, checking it finds the same but
for mismatches; it fails with one cause, or gives one type and leaves one analysis but for what was
found. -/
theorem checkExpr_unexpected (h : p.Reaches options b) (file : Nat) (path : String) (e : Expr)
    {ret ret' : TypeId} {E E' : Option TypeId} (hret : b.types.Has ret) (hret' : b.types.Has ret')
    (hE : ∀ t ∈ E, b.types.Has t) (hE' : ∀ t ∈ E', b.types.Has t) :
    ∃ found found',
      found = (Scope.check ⟨b, file, path⟩ ret E e).findings ∧
      found' = (Scope.check ⟨b, file, path⟩ ret' E' e).findings ∧
      found.filter (!·.isMismatch) = found'.filter (!·.isMismatch) ∧
      ((∃ cause, b.checkExpr file path ret E e = .error cause ∧
          b.checkExpr file path ret' E' e = .error cause) ∨
        ∃ type notes,
          b.checkExpr file path ret E e =
            .ok (type, { b with notes := notes, findings := b.findings ++ found }) ∧
          b.checkExpr file path ret' E' e =
            .ok (type, { b with notes := notes, findings := b.findings ++ found' })) := by
  have halike := Scope.alike_check (h.safe file path) hret hret' e hE hE'
  refine ⟨_, _, rfl, rfl, halike.findings, ?_⟩
  simp only [Analysis.checkExpr, ← halike.notes, ← halike.outcome]
  cases b.notes.recordAll (Scope.check ⟨b, file, path⟩ ret E e).notes with
  | error cause => exact .inl ⟨cause, rfl, rfl⟩
  | ok notes =>
    cases (Scope.check ⟨b, file, path⟩ ret E e).outcome with
    | error cause => exact .inl ⟨cause, rfl, rfl⟩
    | ok type => exact .inr ⟨type, notes, rfl, rfl⟩

/-- `return 1`. -/
def returnOne : Expr := .ret (.numbered 50) (some (.number (.numbered 51) "1"))

def mismatchOne : Finding := ⟨"main.kiln", .start, .mismatch "bool" "i32"⟩

/-- When the bodies of the sample program are checked, a number and its return are at odds with a
function that returns `bool`, and not with one that returns `i32`. The return never completes all the
same. -/
theorem sample_unexpected : ∃ b notes, sample.Reaches .none b ∧ b.findings = [] ∧
    b.checkExpr 0 "main.kiln" .bool (some .i32) returnOne = .ok (.unreachable,
      { b with notes := notes, findings := List.replicate 2 mismatchOne }) ∧
    b.checkExpr 0 "main.kiln" .i32 none returnOne =
      .ok (.unreachable, { b with notes := notes, findings := [] }) := by
  have hrun : ((Analysis.initial .none).readFiles sample.entry.toNat 0 sample.files >>= fun s =>
      s.absorb (s.checkFiles 0 sample.files) >>= fun b =>
        b.checkExpr 0 "main.kiln" .bool (some .i32) returnOne >>= fun r =>
          (b.checkExpr 0 "main.kiln" .i32 none returnOne).map fun r' =>
            (b.findings, r.1, r.2.findings, r'.2.findings)) =
      .ok ([], .unreachable, List.replicate 2 mismatchOne, []) := by
    decide +kernel
  simp only [bind_eq_ok_iff, map_eq_ok_iff, Prod.mk.injEq] at hrun
  obtain ⟨s, hs, b, hb, r, hr, r', hr', hnil, htype, hfound, hfound'⟩ := hrun
  have hreach := reaches_of_absorb hs hb
  have hhas : ∀ t : TypeId, t.index < 7 → b.types.Has t :=
    fun _ ht => (hreach.safe 0 "main.kiln").types.has_builtin ht
  have hi32 := hhas .i32 (by decide)
  have hnone : ∀ t ∈ (none : Option TypeId), b.types.Has t := by simp
  obtain ⟨found, found', -, -, -, hcases⟩ := checkExpr_unexpected hreach 0 "main.kiln" returnOne
    (hhas .bool (by decide)) hi32 hi32.forall_mem_some hnone
  refine ⟨b, r.2.notes, hreach, hnil, ?_⟩
  rcases hcases with ⟨cause, hcause, -⟩ | ⟨type, notes, h, h'⟩
  · rw [hcause] at hr
    cases hr
  · obtain rfl := Except.ok.inj (h.symm.trans hr)
    obtain rfl := Except.ok.inj (h'.symm.trans hr')
    rw [h, h', ← hfound, ← hfound', ← htype]
    exact ⟨rfl, rfl⟩

end Program

end Sema
