import Sema.Analyze
import Sema.Proofs.Checker
import Sema.Proofs.SignatureRun

/-!
A whole analysis, taken apart: the signatures leave what the bodies need, the bodies are checked one
by one, and the artifact is asked for at the end.
-/

namespace Sema

namespace Analysis

/-- What is missing to name the artifact. -/
def outputFindings (p : Program) (o : Output) : List Finding :=
  let (path, pos) := programPlace p
  (if o.name.isNone then [⟨path, pos, .missingOutputName⟩] else []) ++
    if o.kind.isNone then [⟨path, pos, .missingOutputKind⟩] else []

theorem requireOutput_eq (p : Program) (a : Analysis) :
    a.requireOutput p = { a with findings := a.findings ++ outputFindings p a.output } := by
  obtain ⟨types, notes, found, functions, definitions, globals, locals, libraries,
    ⟨kind, name, version, decl⟩⟩ := a
  unfold requireOutput outputFindings report
  cases name <;> cases kind <;> simp

theorem outputFindings_eq_nil_iff {p : Program} {o : Output} :
    outputFindings p o = [] ↔ o.name.isSome ∧ o.kind.isSome := by
  unfold outputFindings
  cases o.name <;> cases o.kind <;> simp

/-- The nodes of a signature that was resolved have the types they stand for. -/
theorem Resolves.resolvedType? {a : Analysis} {t : TypeRef} (h : a.Resolves t) :
    ∃ i, a.notes.resolvedType? t.node.id = some i ∧ a.types.Has i ∧
      (t.IsPlain → a.types.Denotes i t.ty) := by
  obtain ⟨i, hi, hhas, -, hden⟩ := h
  exact ⟨i, by rw [Notes.resolvedType?, hi], hhas, hden⟩

theorem Resolves.eq_unreachable_iff {a : Analysis} {t : TypeRef} (h : a.Resolves t) {i : TypeId}
    (hi : a.notes.resolvedType? t.node.id = some i) : i = .unreachable ↔ t.ty = .unreachable := by
  obtain ⟨j, hj, -, hun, -⟩ := h
  rw [Notes.resolvedType?, hj, Option.some.injEq] at hi
  rwa [← hi]

theorem Sound.resolves {a : Analysis} (h : a.Sound) {f : Function} (hf : f ∈ a.functions)
    {t : TypeRef} (ht : t ∈ f.proto.types) : a.Resolves t :=
  h.resolved f hf t (List.mem_flatMap.mpr ⟨t, ht, t.mem_parts_self⟩)

theorem Filed.linked {i : Nat} {a : Analysis} (h : a.Filed i) : a.Linked := by
  intro file name k hk
  have hspec := h.lookupFunction_spec file name
  rw [hk] at hspec
  obtain ⟨f, hf, -⟩ := hspec
  refine ⟨f, hf, fun t ht => ?_⟩
  obtain ⟨i, hi, -⟩ := (h.sound.resolves (List.mem_of_getElem? hf) ht).resolvedType?
  exact ⟨i, hi⟩

/-- The notes of the bodies change no signature. -/
theorem Linked.env_eq {a : Analysis} (h : a.Linked) {notes : Notes} (hw : a.notes.Within notes)
    (fs : List Finding) : env { a with notes := notes, findings := fs } = a.env := by
  funext file name
  refine Option.ext fun sig => ?_
  rw [env_eq_some_iff, env_eq_some_iff]
  refine exists_congr fun f => and_congr_right fun hf => ?_
  obtain ⟨k, hk, hfun⟩ := Option.bind_eq_some_iff.mp hf
  obtain ⟨g, hg, hres⟩ := h file name k hk
  obtain rfl : g = f := Option.some.inj (hg.symm.trans hfun)
  have hsame : ∀ t ∈ g.proto.types,
      notes.resolvedType? t.node.id = a.notes.resolvedType? t.node.id := by
    intro t ht
    obtain ⟨i, hi⟩ := hres t ht
    rw [hi, hw.resolvedType? hi]
  rw [hsame _ g.proto.returnType_mem_types,
    List.map_congr_left fun p hp => hsame p.type (Prototype.type_mem_types hp)]

theorem NotesValid.resolvedType? {a : Analysis} (h : a.NotesValid) {n : NodeId} {i : TypeId}
    (hn : a.notes.resolvedType? n = some i) : a.types.Has i ∧ (a.findings = [] → i ≠ .invalid) := by
  unfold Notes.resolvedType? at hn
  split at hn
  · next t hget =>
    obtain rfl := Option.some.inj hn
    exact h n _ hget t (List.mem_singleton_self t)
  · cases hn

/-- What holds of all types that are noted holds of the types in signatures. -/
theorem env_forall {a : Analysis} {P : TypeId → Prop}
    (h : ∀ n i, a.notes.resolvedType? n = some i → P i) {file : Nat} {name : String}
    {sig : Signature TypeId} (hs : a.env file name = some sig) :
    (∀ i ∈ sig.params, P i) ∧ P sig.result := by
  obtain ⟨f, -, hps, hr⟩ := env_eq_some_iff.mp hs
  refine ⟨fun i hi => ?_, h _ _ hr⟩
  obtain ⟨p, -, hp⟩ := List.mem_map.mp (hps ▸ List.mem_map_of_mem hi)
  exact h _ _ hp

/-- Where nothing was found, no type of a signature is invalid. -/
theorem NotesValid.env_valid {a : Analysis} (h : a.NotesValid) (hf : a.findings = []) (file : Nat) :
    (a.env file).Valid := by
  intro name sig hs
  obtain ⟨hparams, hresult⟩ := env_forall (fun n i hn => (h.resolvedType? hn).2 hf) hs
  exact ⟨fun hmem => hparams _ hmem rfl, hresult⟩

/-- A definition that is not left out is clean exactly when its body follows the rules. -/
theorem clean_checkDefinition_iff {a : Analysis} (hl : a.Linked) (hv : a.NotesValid)
    (hf : a.findings = []) {file : Nat} {path : String} {d : FnDef}
    (hskip : a.notes.isSkipped d.node.id = false) :
    (Scope.checkDefinition ⟨a, file, path⟩ d).Clean () ↔
      ∃ ret t, a.notes.resolvedType? d.proto.returnType.node.id = some ret ∧
        Checks (a.env file) ret (some ret) d.body t := by
  have hfollows : Scope.Follows ⟨a, file, path⟩ (a.env file) :=
    ⟨hv.env_valid hf file, hl.env_cases file path⟩
  simp only [Scope.checkDefinition, hskip, Bool.false_eq_true, if_false, Checked.clean_bind_iff,
    Scope.resolvedType, Checked.clean_ofOption_iff]
  constructor
  · rintro ⟨ret, hret, t, hc, -⟩
    have hne := (hv.resolvedType? hret).2 hf
    exact ⟨ret, t, hret, (Scope.judges hfollows hne d.body _ _ (mt Option.some.inj hne)).mp hc⟩
  · rintro ⟨ret, t, hret, hc⟩
    have hne := (hv.resolvedType? hret).2 hf
    exact ⟨ret, hret, t, (Scope.judges hfollows hne d.body _ _ (mt Option.some.inj hne)).mpr hc,
      Checked.clean_note _ _⟩

/-- A use declaration is clean when it has no directives. -/
theorem clean_checkUse_iff {s : Scope} {u : UseDecl} :
    (s.checkDecl (.use u)).Clean () ↔ u.directives = [] := by
  rw [Scope.checkDecl, Checked.clean_forM_iff]
  constructor
  · intro h
    rw [List.eq_nil_iff_forall_not_mem]
    exact fun d hd => Checked.not_clean_report (h d hd)
  · intro h d hd
    rw [h] at hd
    cases hd

/-- The files are checked declaration by declaration. -/
theorem checkFiles_eq (entry : Nat) (a : Analysis) : ∀ (i : Nat) (fs : List SourceFile),
    a.checkFiles i fs = (Program.declsFrom entry i fs).forM fun x =>
      Scope.checkDecl ⟨a, x.1.index, x.1.path⟩ x.2
  | i, [] => rfl
  | i, f :: fs => by
    rw [checkFiles, Program.declsFrom, checkFiles_eq entry a (i + 1) fs]
    simp only [List.forM_eq_forM, List.forM_append, List.forM_map]

end Analysis

/-- A result is what the signatures left, with the notes and the findings of the bodies. -/
theorem Program.analyze_eq_ok_iff {p : Program} {options : BuildOptions} {b : Analysis} :
    p.analyze options = .ok b ↔ ∃ a notes,
      (Analysis.initial options).readFiles p.entry.toNat 0 p.files = .ok a ∧
      a.notes.recordAll (a.checkFiles 0 p.files).notes = .ok notes ∧
      (a.checkFiles 0 p.files).outcome = .ok () ∧
      b = { a with
        notes := notes
        findings := a.findings ++ (a.checkFiles 0 p.files).findings ++
          Analysis.outputFindings p a.output } := by
  simp only [analyze, Analysis.absorb, bind_eq_ok_iff, pure_eq_ok_iff, Analysis.requireOutput_eq]
  constructor
  · rintro ⟨a, ha, _, ⟨notes, hn, _, ho, rfl⟩, rfl⟩
    exact ⟨a, notes, ha, hn, ho, rfl⟩
  · rintro ⟨a, notes, ha, hn, ho, rfl⟩
    exact ⟨a, ha, _, ⟨notes, hn, (), ho, rfl⟩, rfl⟩

/-! ### A small program -/

/-- A node of a small program, told by its number. -/
def Node.numbered (i : Nat) : Node := ⟨⟨UInt32.ofNat i⟩, .start⟩

/-- A node on a line of its own, which tells it from others. -/
def Node.onLine (i : Nat) : Node := ⟨⟨UInt32.ofNat i⟩, ⟨UInt32.ofNat i, 1, 0⟩⟩

/-- `if (1 == 1) {} else { return 2; } two()`, in a block. -/
def Expr.sample : Expr :=
  .block (.numbered 1) [
    .cond (.numbered 2)
      (.binary (.numbered 3) .equal (.number (.numbered 4) "1") (.number (.numbered 5) "1"))
      (.block (.numbered 6) [])
      (some (.block (.numbered 7) [.ret (.numbered 8) (some (.number (.numbered 9) "2"))])),
    .call (.numbered 10) (.symbol (.numbered 11) "two") []]

/-- A function `main` that returns `i32`. -/
def FnDef.sample : FnDef :=
  ⟨.numbered 12, ⟨.numbered 13, "main", .exported, [], .named (.numbered 14) "i32", []⟩, .sample⟩

/-- A program of two files, where the first calls a function of the second. -/
def Program.sample : Program where
  files := [
    ⟨"main.kiln", .numbered 15, [
      .rootExport ⟨.numbered 16, "executable", "app", [⟨.numbered 17, "version", "1.0.0"⟩]⟩,
      .externalBlock ⟨.numbered 18, [⟨.numbered 19, "link", "c"⟩],
        [⟨.numbered 20, ⟨.numbered 21, "put", .fileOnly,
          [⟨.numbered 22, "s", .pointer (.numbered 23) .constant (.named (.numbered 24) "u8")⟩],
          .named (.numbered 25) "void", []⟩⟩]⟩,
      .fnDef .sample]⟩,
    ⟨"two.kiln", .numbered 26, [
      .fnDef ⟨.numbered 27, ⟨.numbered 28, "two", .shared, [], .named (.numbered 29) "i32", []⟩,
        .number (.numbered 30) "2"⟩]⟩]
  entry := 0

theorem Program.sample_ok : ∃ a, sample.analyze .none = .ok a ∧ a.diagnostics.toList = [] ∧
    a.notes.resolvedType? FnDef.sample.proto.returnType.node.id = some .i32 := by
  have h : ((sample.analyze .none).map fun a => (a.diagnostics.toList,
      a.notes.resolvedType? FnDef.sample.proto.returnType.node.id)) = .ok ([], some .i32) := by
    decide +kernel
  obtain ⟨a, ha, heq⟩ := map_eq_ok_iff.mp h
  exact ⟨a, ha, Prod.mk.inj heq⟩

end Sema
