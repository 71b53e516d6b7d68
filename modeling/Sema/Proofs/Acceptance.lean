import Sema.Proofs.Analyzed
import Sema.Proofs.WellFormed

/-!
The analysis against the definition of well-formed programs: on every program for which there is a
result, nothing is found exactly when the program is well formed.
-/

namespace Sema

/-! ### What accepted signatures leave -/

namespace Program

variable {p : Program} {options : BuildOptions} {a : Analysis}

/-- Functions that are read are declared. -/
theorem functions_subset (p : Program) : p.functions ⊆ declared p.decls := by
  rw [declared, flatMap_decls]
  intro f hf
  obtain ⟨r, hr, hf⟩ := List.mem_flatMap.mp hf
  exact List.mem_flatMap.mpr ⟨r, hr, List.mem_of_mem_filter hf⟩

section

variable (h : ∀ r ∈ p.readings, r.Accepted)
include h

theorem functions_of_accepted : p.functions = declared p.decls := by
  rw [declared, flatMap_decls]
  exact List.flatMap_congr fun r hr => (h r hr).functions_eq

/-- A root export is honored when there is one. -/
theorem any_honors_iff : p.readings.any (·.honors.isSome) ↔ rootExports p.decls ≠ [] := by
  rw [rootExports, flatMap_decls, ne_eq, List.flatMap_eq_nil_iff, List.any_eq_true]
  simp only [not_forall, exists_prop]
  refine exists_congr fun r => and_congr_right fun hr => ?_
  have hexp := (h r hr).exports
  rw [Reading.honors]
  cases hd : r.decl with
  | rootExport e =>
    obtain ⟨hentry, hhon, -⟩ := hexp e hd
    simp [hentry, hhon]
  | _ => simp

/-- The artifact has a name and a kind when the options or a root export give them. -/
theorem outputFindings_eq_nil_iff (ha : (Analysis.initial options).Runs p.readings a) :
    Analysis.outputFindings p a.output = [] ↔
      (options.outName.isSome ∨ rootExports p.decls ≠ []) ∧
      (options.outKind.isSome ∨ rootExports p.decls ≠ []) := by
  have hname := Analysis.settled_outputAfter (·.name.isSome) p.readings
    (fun _ _ _ _ _ => by simp [Output.honor]) (Analysis.initial options).output
  have hkind := Analysis.settled_outputAfter (·.kind.isSome) p.readings
    (fun r hr e he o => ?_) (Analysis.initial options).output
  · rw [Analysis.outputFindings_eq_nil_iff, ha.output, hname, hkind, Bool.or_eq_true,
      Bool.or_eq_true, any_honors_iff h]
    rfl
  · have hexp := (h r hr).exports
    rw [Reading.honors] at he
    split at he
    · next e' hd =>
      obtain ⟨-, -, hk⟩ := hexp e' hd
      rw [← OutputKind.isSome_ofWord?_iff] at hk
      split at he
      · obtain rfl := Option.some.inj he
        simp [Output.honor, hk]
      · cases he
    · cases he

end

end Program

/-! ### Types and names -/

theorem TypeTable.WellFormed.translation {t : TypeTable} (h : t.WellFormed) :
    Translation t.Denotes where
  void := .void
  bool := .bool
  i32 := .i32
  unreachable := .unreachable
  stringLiteral := h.denotes_stringLiteral
  eq_iff := h.denotes_iff_eq

theorem Function.mem_of_visible {file : Nat} {name : String} {fs : List Function} {f : Function}
    (h : visible file name fs = some f) : f ∈ fs := by
  rcases Option.or_eq_some_iff.mp h with h | ⟨-, h⟩
  · exact List.mem_of_mem_filter (List.mem_of_getLast? h)
  · exact List.mem_of_mem_filter (List.mem_of_getLast? h)

theorem forall₂_of_map_eq {α β γ : Type} {R : β → γ → Prop} {g : α → Option β} {k : α → γ} :
    ∀ {l : List α} {is : List β}, l.map g = is.map some →
      (∀ x ∈ l, ∀ i, g x = some i → R i (k x)) → List.Forall₂ R is (l.map k)
  | [], [], _, _ => .nil
  | x :: l, i :: is, h, hR => by
    rw [List.map_cons, List.map_cons, List.cons.injEq] at h
    obtain ⟨hx, hl⟩ := List.forall_mem_cons.mp hR
    exact .cons (hx i h.1) (forall₂_of_map_eq h.2 hl)

namespace Analysis

variable {a : Analysis}

theorem Filed.lookupFunction_bind {i : Nat} (h : a.Filed i) (file : Nat) (name : String) :
    (a.lookupFunction file name).bind a.function? = Function.visible file name a.functions := by
  have hspec := h.lookupFunction_spec file name
  cases hl : a.lookupFunction file name with
  | none =>
    rw [hl] at hspec
    exact hspec.symm
  | some k =>
    rw [hl] at hspec
    obtain ⟨f, hf, hv⟩ := hspec
    rw [hv]
    exact hf

/-- The notes on a plain signature have the types that are written. -/
theorem Sound.denotes (h : a.Sound) {f : Function} (hf : f ∈ a.functions) (hp : f.proto.IsPlain)
    {t : TypeRef} (ht : t ∈ f.proto.types) {i : TypeId}
    (hi : a.notes.resolvedType? t.node.id = some i) : a.types.Denotes i t.ty := by
  obtain ⟨j, hj, -, hden⟩ := (h.resolves hf ht).resolvedType?
  rw [hi] at hj
  obtain rfl := Option.some.inj hj
  exact hden (hp t ht)

end Analysis

/-- The types of the parameters and of the result of a function. -/
def Function.signature (f : Function) : Signature Ty :=
  ⟨f.proto.params.map (·.type.ty), f.proto.returnType.ty⟩

/-- The signatures that a file sees among functions, by name. -/
def Function.env (fs : List Function) (file : Nat) : Env Ty := fun name =>
  (visible file name fs).map signature

namespace Analysis

variable {a : Analysis} {n : Nat} (ha : a.Filed n) (hplain : ∀ f ∈ a.functions, f.proto.IsPlain)
include ha hplain

/-- The notes on plain signatures have the types of the functions that a file sees. -/
theorem Filed.env_within (file : Nat) :
    (a.env file).Within a.types.Denotes (Function.env a.functions file) := by
  intro name sig hs
  obtain ⟨f, hf, hps, hr⟩ := env_eq_some_iff.mp hs
  rw [ha.lookupFunction_bind] at hf
  have hmem := Function.mem_of_visible hf
  have hden := fun {t} ht {i} => ha.sound.denotes hmem (hplain f hmem) (t := t) ht (i := i)
  refine ⟨_, by rw [Function.env, hf]; rfl, forall₂_of_map_eq hps fun q hq i hi => ?_, ?_⟩
  · exact hden (Prototype.type_mem_types hq) hi
  · exact hden f.proto.returnType_mem_types hr

theorem Filed.within_env (file : Nat) :
    (Function.env a.functions file).Within (fun x i => a.types.Denotes i x) (a.env file) := by
  intro name sig hs
  rcases ha.linked.env_cases file "" name with ⟨hnone, -⟩ | ⟨k, sig', -, hsome, -⟩
  · have hvis := ha.lookupFunction_bind file name
    rw [hnone, Option.bind_none] at hvis
    rw [Function.env, ← hvis] at hs
    cases hs
  · obtain ⟨g, hg, hparams, hresult⟩ := ha.env_within hplain file name sig' hsome
    rw [hs, Option.some.injEq] at hg
    subst hg
    exact ⟨sig', hsome, hparams.flip, hresult⟩

end Analysis

namespace Program

variable {p : Program} {a : Analysis} {n : Nat}

section

variable (ha : a.Filed n) (hfun : a.functions = declared p.decls)
  (hplain : ∀ f ∈ declared p.decls, f.proto.IsPlain)
include ha hfun hplain

theorem env_of_analysis (file : Nat) : (a.env file).Within a.types.Denotes (p.env file) := by
  have h := ha.env_within (hfun ▸ hplain) file
  rw [hfun] at h
  exact h

theorem analysis_of_env (file : Nat) :
    (p.env file).Within (fun x i => a.types.Denotes i x) (a.env file) := by
  have h := ha.within_env (hfun ▸ hplain) file
  rw [hfun] at h
  exact h

/-- A body follows the rules by handles exactly when it does by types. -/
theorem checks_iff {c : FileContext} {d : FnDef}
    (hd : .defined d.proto d.node.id c.index ∈ declared p.decls) :
    (∃ ret t, a.notes.resolvedType? d.proto.returnType.node.id = some ret ∧
      Checks (a.env c.index) ret (some ret) d.body t) ↔
    ∃ t, Checks (p.env c.index) d.proto.returnType.ty (some d.proto.returnType.ty) d.body t := by
  have htrans := ha.sound.types.translation
  have hmem : Function.defined d.proto d.node.id c.index ∈ a.functions := hfun ▸ hd
  have hret := d.proto.returnType_mem_types
  have hden := fun {i} => ha.sound.denotes hmem (hplain _ hd) hret (i := i)
  constructor
  · rintro ⟨ret, t, hr, hc⟩
    obtain ⟨x, -, hx⟩ := hc.transfer htrans (env_of_analysis ha hfun hplain c.index) (hden hr)
      (.some (hden hr))
    exact ⟨x, hx⟩
  · rintro ⟨x, hx⟩
    obtain ⟨ret, hr, -⟩ := (ha.sound.resolves hmem hret).resolvedType?
    obtain ⟨t, -, ht⟩ := hx.transfer htrans.symm (analysis_of_env ha hfun hplain c.index) (hden hr)
      (.some (hden hr))
    exact ⟨ret, t, hr, ht⟩

end

section

variable {options : BuildOptions} (h : p.readings.flatMap Reading.findings = [])
include h

theorem accepted_of_findings : ∀ r ∈ p.readings, r.Accepted :=
  fun r hr => Reading.findings_eq_nil_iff.mp (List.flatMap_eq_nil_iff.mp h r hr)

/-- When the signatures are accepted, the bodies are clean exactly when they follow the rules. -/
theorem clean_checkDecl_iff (ha : a.Filed n) (hruns : (Analysis.initial options).Runs p.readings a)
    (hf : a.findings = []) (hplain : ∀ f ∈ declared p.decls, f.proto.IsPlain) :
    (∀ x ∈ p.decls, (Scope.checkDecl ⟨a, x.1.index, x.1.path⟩ x.2).Clean ()) ↔
      (∀ c u, (c, Decl.use u) ∈ p.decls → u.directives = []) ∧
      (∀ c d, (c, Decl.fnDef d) ∈ p.decls → ∃ t, Checks (p.env c.index) d.proto.returnType.ty
        (some d.proto.returnType.ty) d.body t) := by
  have hacc := accepted_of_findings h
  have hfun : a.functions = declared p.decls :=
    (functions_eq hruns).trans (functions_of_accepted hacc)
  have hbody : ∀ c d, (c, Decl.fnDef d) ∈ p.decls →
      ((Scope.checkDecl ⟨a, c.index, c.path⟩ (.fnDef d)).Clean () ↔ ∃ t, Checks (p.env c.index)
        d.proto.returnType.ty (some d.proto.returnType.ty) d.body t) := by
    intro c d hd
    rw [Scope.checkDecl, Analysis.clean_checkDefinition_iff ha.linked ha.sound.valid hf
      (isSkipped_eq_false hruns ha.sound.distinct hf _)]
    exact checks_iff ha hfun hplain (List.mem_flatMap.mpr ⟨_, hd, List.mem_singleton_self _⟩)
  constructor
  · intro hall
    exact ⟨fun c u hu => Analysis.clean_checkUse_iff.mp (hall _ hu),
      fun c d hd => (hbody c d hd).mp (hall _ hd)⟩
  · rintro ⟨huse, hchecks⟩ ⟨c, d⟩ hx
    cases d with
    | fnDef d => exact (hbody c d hx).mpr (hchecks c d hx)
    | use u => exact Analysis.clean_checkUse_iff.mpr (huse c u hx)
    | externalBlock b => exact Checked.clean_pure_iff.mpr rfl
    | rootExport e => exact Checked.clean_pure_iff.mpr rfl

end

/-- On a program without names that look like pointers, nothing is found exactly when it is well
formed. -/
theorem diagnostics_eq_nil_iff {p : Program} {options : BuildOptions} {a : Analysis}
    (h : p.analyze options = .ok a) (hplain : ∀ f ∈ declared p.decls, f.proto.IsPlain) :
    a.diagnostics.toList = [] ↔ p.WellFormed options := by
  obtain ⟨b, notes, hb, -, hout, rfl⟩ := analyze_eq_ok_iff.mp h
  obtain ⟨hfiled, hruns⟩ := signatures_ok hb
  have hfindings : b.findings = p.readings.flatMap Reading.findings := by
    obtain ⟨fs, hfs, heq, -⟩ := hruns.findings
    rw [hfs, heq fun r hr f hf => hplain f (functions_subset p (List.mem_flatMap.mpr ⟨r, hr, hf⟩))]
    rfl
  have hclean : (b.checkFiles 0 p.files).findings = [] ↔ ∀ x ∈ p.decls,
      (Scope.checkDecl ⟨b, x.1.index, x.1.path⟩ x.2).Clean () := by
    rw [Program.decls, ← Checked.clean_forM_iff, ← Analysis.checkFiles_eq]
    exact ⟨fun hf => ⟨hf, hout⟩, fun hc => hc.1⟩
  simp only [Analysis.diagnostics, List.map_eq_nil_iff, List.append_eq_nil_iff, hclean]
  rw [wellFormed_iff, hfindings, ← findings_readingsFrom_eq_nil_iff, and_assoc]
  refine and_congr_right fun hnil => and_congr ?_ ?_
  · exact clean_checkDecl_iff hnil hfiled hruns (hfindings.trans hnil) hplain
  · exact outputFindings_eq_nil_iff (accepted_of_findings hnil) hruns

theorem sample_wellFormed : sample.WellFormed .none := by
  obtain ⟨a, ha, hclean, -⟩ := sample_ok
  refine (diagnostics_eq_nil_iff ha ?_).mp hclean
  simp [declared, decls, declsFrom, sample, FnDef.sample, Decl.functions, Function.declared,
    Function.defined, Prototype.IsPlain, Prototype.types, TypeRef.IsPlain, or_imp, forall_and]

end Program

end Sema
