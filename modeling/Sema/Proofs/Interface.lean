import Sema.Proofs.Matching

/-!
Files see each other through what they share. When one file is replaced by another that shares the
same functions, all other files are read alike and see the same signatures, so whatever else the file
holds is told by no note and by no finding of another file.
-/

namespace Sema

/-- The nodes of a file that can be noted. -/
def SourceFile.ids (f : SourceFile) : List NodeId := f.decls.flatMap Decl.ids

namespace Program

/-! ### Findings file by file -/

/-- The signatures of the files before an index. -/
def signaturesTo (p : Program) (options : BuildOptions) (j : Nat) : Except AnalysisError Analysis :=
  (Analysis.initial options).readFiles p.entry.toNat 0 (p.files.take j)

/-- What is found while the signatures of a file are read. -/
def signatureFindings (p : Program) (options : BuildOptions) (j : Nat) : List Finding :=
  match p.signaturesTo options j, p.signaturesTo options (j + 1) with
  | .ok a, .ok b => b.findings.drop a.findings.length
  | _, _ => []

/-- What is found while the bodies of a file are checked. -/
def bodyFindings (p : Program) (options : BuildOptions) (j : Nat) : List Finding :=
  match p.signaturesTo options p.files.length, p.files[j]? with
  | .ok s, some f => (f.decls.forM (Scope.checkDecl ⟨s, j, f.path⟩)).findings
  | _, _ => []

/-- A program that ends before an index. -/
def upTo (p : Program) (j : Nat) : Program := { p with files := p.files.take j }

theorem decls_upTo (p : Program) (j : Nat) : ∃ rest, p.decls = (p.upTo j).decls ++ rest := by
  refine ⟨declsFrom p.entry.toNat (0 + (p.files.take j).length) (p.files.drop j), ?_⟩
  rw [decls, decls, upTo, ← declsFrom_append, List.take_append_drop]

namespace Signed

variable {p : Program} {options : BuildOptions} {s : Analysis} (h : p.Signed options s)
include h

/-- The files before an index have signatures of their own. -/
theorem exists_upTo (j : Nat) : ∃ t, (p.upTo j).Signed options t := by
  obtain ⟨rest, hrest⟩ := p.decls_upTo j
  refine exists_signed ?_ (fun f hf => h.plain f ?_) options
  · have hids := h.ids
    rw [Program.ids, hrest, List.flatMap_append] at hids
    exact hids.of_append_left
  · rw [hrest, declared, List.flatMap_append]
    exact List.mem_append_left _ hf

theorem signatureFindings_eq (j : Nat) :
    p.signatureFindings options j = (p.readingsIn j).flatMap Reading.findings := by
  obtain ⟨t, ht⟩ := h.exists_upTo j
  obtain ⟨u, hu⟩ := h.exists_upTo (j + 1)
  have hfindings : u.findings = t.findings ++ (p.readingsIn j).flatMap Reading.findings := by
    rw [hu.findings_eq, ht.findings_eq]
    change (p.readingsTo (j + 1)).flatMap _ = (p.readingsTo j).flatMap _ ++ _
    rw [readingsTo_succ, List.flatMap_append]
  have hrun : p.signaturesTo options j = .ok t := ht.run
  have hrun' : p.signaturesTo options (j + 1) = .ok u := hu.run
  rw [signatureFindings, hrun, hrun']
  change u.findings.drop t.findings.length = _
  rw [hfindings, List.drop_left]

theorem bodyFindings_eq (j : Nat) :
    p.bodyFindings options j = ((p.readingsIn j).forM s.bodyOf).findings := by
  have hrun : p.signaturesTo options p.files.length = .ok s := by
    rw [signaturesTo, List.take_length]
    exact h.run
  rw [bodyFindings, hrun]
  cases hf : p.files[j]? with
  | none =>
    rw [readingsIn, getElem?_marked, hf]
    rfl
  | some f =>
    have hdecls := map_readingsIn (getElem?_marked_of_files hf)
    have hforM : f.decls.forM (Scope.checkDecl ⟨s, j, f.path⟩) =
        (f.decls.map (⟨j, f.path, j == p.entry.toNat⟩, ·)).forM fun x : FileContext × Decl =>
          Scope.checkDecl ⟨s, x.1.index, x.1.path⟩ x.2 := by
      simp only [List.forM_eq_forM, List.forM_map]
    change (f.decls.forM (Scope.checkDecl ⟨s, j, f.path⟩)).findings = _
    rw [hforM, ← hdecls]
    simp only [List.forM_eq_forM, List.forM_map]
    rfl

end Signed

/-- What is found is what is found in the signatures file by file, then in the bodies file by file, and
at last what is missing to name the artifact. -/
theorem findings_by_file {p : Program} {options : BuildOptions} {a : Analysis} (hids : p.ids.Nodup)
    (hplain : ∀ f ∈ declared p.decls, f.proto.IsPlain) (ha : p.analyze options = .ok a) :
    a.findings = (List.range p.files.length).flatMap (p.signatureFindings options) ++
      (List.range p.files.length).flatMap (p.bodyFindings options) ++
        Analysis.outputFindings p a.output := by
  obtain ⟨s, hs⟩ := exists_signed hids hplain options
  have hall := hs.exists_analyze_iff.mp ⟨a, ha⟩
  have hbodies : p.bodyFindings options = fun j =>
      (p.readingsIn j).flatMap fun r => (s.bodyOf r).findings := by
    funext j
    rw [hs.bodyFindings_eq, Checked.forM_of_ok fun r hr => hall r (mem_readings_iff.mpr ⟨j, hr⟩)]
  obtain ⟨notes, -, rfl⟩ := hs.of_analyze ha
  change s.findings ++ _ ++ _ = _
  rw [hs.findings_eq, readings_eq, List.flatMap_assoc, List.flatMap_assoc, hbodies,
    funext hs.signatureFindings_eq]

end Program

/-! ### One file replaced -/

/-- What a declaration shares does not depend on its being read, unless it shares a name and is left
out. -/
theorem Reading.interface_functions {r : Reading}
    (h : ∀ d ∈ r.redefined, d.proto.visibility ≠ .shared) :
    Function.interface r.functions = Function.interface (r.decl.functions r.context.index) := by
  cases hd : r.decl with
  | fnDef d =>
    have hred := redefined_fnDef hd
    rw [functions_fnDef hd]
    split at hred
    · next hrep =>
      have hnot := h d (hred ▸ List.mem_singleton_self d)
      rw [if_pos hrep]
      simp [Function.interface, Decl.functions, Function.defined, hnot]
    · next hrep =>
      rw [if_neg hrep]
      rfl
  | externalBlock b =>
    rw [functions_externalBlock hd]
    rfl
  | rootExport e => simp [functions, hd, Decl.functions]
  | use u => simp [functions, hd, Decl.functions]

namespace Program

variable {p q : Program} {k : Nat}

/-- Where no shared definition of a file is left out, other files see all that the file shares. -/
theorem interface_functionsIn {f : SourceFile} (hf : p.files[k]? = some f)
    (hkept : ∀ x ∈ p.redefinitions, x.1.index = k → x.2.proto.visibility ≠ .shared) :
    Function.interface (p.functionsIn k) = f.interface := by
  have hdecls := map_readingsIn (getElem?_marked_of_files hf)
  calc Function.interface (p.functionsIn k)
      = (p.readingsIn k).flatMap fun r =>
          Function.interface (r.decl.functions r.context.index) := by
        rw [functionsIn, Function.interface_flatMap]
        refine List.flatMap_congr fun r hr => Reading.interface_functions fun d hd => ?_
        exact hkept (r.context, d) (mem_redefinitions_iff.mpr
          ⟨r, mem_readings_iff.mpr ⟨k, hr⟩, hd, rfl⟩) (index_of_mem_readingsIn hr)
    _ = f.decls.flatMap fun d => Function.interface (d.functions k) := by
        have hmap := congrArg (List.flatMap fun x : FileContext × Decl =>
          Function.interface (x.2.functions x.1.index)) hdecls
        rw [List.flatMap_map, List.flatMap_map] at hmap
        exact hmap
    _ = f.interface := by
        rw [SourceFile.interface, Function.interface_flatMap]
        refine List.flatMap_congr fun d _ => ?_
        rw [← Decl.map_inFile_functions k 0, Function.interface_map_inFile]

/-- Whether a program is another with one file replaced, which is not the entry file: the new file
shares functions of the same names and types in the same order, and in neither program a definition
that the file shares is left out. -/
structure Replaced (p q : Program) (k : Nat) (g g' : SourceFile) : Prop where
  file : p.files[k]? = some g
  files : q.files = p.files.set k g'
  entry : q.entry = p.entry
  notEntry : k ≠ p.entry.toNat
  interface : g'.interface = g.interface
  kept : ∀ x ∈ p.redefinitions, x.1.index = k → x.2.proto.visibility ≠ .shared
  kept' : ∀ x ∈ q.redefinitions, x.1.index = k → x.2.proto.visibility ≠ .shared

namespace Replaced

variable {g g' : SourceFile} (h : p.Replaced q k g g')
include h

theorem file' : q.files[k]? = some g' := by
  rw [h.files, List.getElem?_set_self (List.getElem?_eq_some_iff.mp h.file).1]

theorem getElem?_marked_eq {j : Nat} (hj : j ≠ k) : q.marked[j]? = p.marked[j]? := by
  rw [getElem?_marked, getElem?_marked, h.files, List.getElem?_set_ne (Ne.symm hj), h.entry]

/-- A file is read alike when the files before it share the same. -/
theorem alike_of_before {j : Nat} (hj : j ≠ k) (hbefore : ∀ i < j,
    Function.interface (q.functionsIn i) = Function.interface (p.functionsIn i)) :
    (p.readingsIn j).Forall₂ Reading.Alike (q.readingsIn j) := by
  have hrange : ((List.range j).flatMap fun i => Function.interface (q.functionsIn i)) =
      (List.range j).flatMap fun i => Function.interface (p.functionsIn i) :=
    List.flatMap_congr fun i hi => hbefore i (List.mem_range.mp hi)
  cases hx : p.marked[j]? with
  | none =>
    rw [readingsIn, readingsIn, h.getElem?_marked_eq hj, hx]
    exact .nil
  | some x =>
    rw [readingsIn_eq hx, readingsIn_eq ((h.getElem?_marked_eq hj).trans hx)]
    refine readingsFrom_alike rfl rfl _ (fun he => ?_) fun d _ => ?_
    · obtain rfl := (isEntry_iff hx).mp he
      rw [not_honored_before, ← h.entry, not_honored_before]
    · rw [any_clashes_readingsTo, any_clashes_readingsTo, hrange]

/-- Every file shares the same. -/
theorem interface_functionsIn_eq (j : Nat) :
    Function.interface (q.functionsIn j) = Function.interface (p.functionsIn j) := by
  -- by the files before: only through what they share can they leave out a definition of this one
  induction j using Nat.strong_induction_on with
  | _ j ih =>
    by_cases hj : j = k
    · rw [hj, interface_functionsIn h.file' h.kept', interface_functionsIn h.file h.kept,
        h.interface]
    · rw [functionsIn_of_alike (h.alike_of_before hj ih), Function.interface_map_inFile]

theorem filter_isShared_eq (name : String) :
    (q.functions.filter (Function.isShared name)).map Function.signature =
      (p.functions.filter (Function.isShared name)).map Function.signature := by
  have hlength : q.files.length = p.files.length := by rw [h.files, List.length_set]
  have hinterface : Function.interface q.functions = Function.interface p.functions := by
    rw [functions_eq_flatMap, functions_eq_flatMap, Function.interface_flatMap,
      Function.interface_flatMap, hlength]
    exact List.flatMap_congr fun j _ => h.interface_functionsIn_eq j
  rw [Function.map_signature_filter_isShared, Function.map_signature_filter_isShared, hinterface]

/-- All other files match declaration by declaration. -/
theorem matches_at {j : Nat} (hj : j ≠ k) :
    (p.readingsIn j).Forall₂ (p.Matches q) (q.readingsIn j) :=
  forall₂_matches (h.alike_of_before hj fun i _ => h.interface_functionsIn_eq i)
    h.filter_isShared_eq

end Replaced

/-- The node of a reading in a file is a node of the file. -/
theorem mem_ids_of_mem_readingsIn {f : SourceFile} (hf : p.files[k]? = some f) {r : Reading}
    (hr : r ∈ p.readingsIn k) {n : NodeId} (hn : n ∈ r.decl.ids) : n ∈ f.ids := by
  obtain ⟨x, hx, -, hd⟩ := mem_readingsIn hr
  obtain rfl := Option.some.inj ((getElem?_files hx).symm.trans hf)
  exact List.mem_flatMap.mpr ⟨r.decl, hd, hn⟩

/-- Files see each other only through what they share. When one file is replaced by another that
shares the same, what is told of the nodes of all other files is the same, and so is what is found in
their signatures and in their bodies. -/
theorem analyze_replaced {options : BuildOptions} {g g' : SourceFile} {a b : Analysis}
    (h : p.Replaced q k g g') (hids : p.ids.Nodup) (hids' : q.ids.Nodup)
    (hplain : ∀ f ∈ declared p.decls, f.proto.IsPlain)
    (hplain' : ∀ f ∈ declared q.decls, f.proto.IsPlain)
    (ha : p.analyze options = .ok a) (hb : q.analyze options = .ok b) :
    (∀ n, n ∉ g.ids → n ∉ g'.ids → a.told n = b.told n) ∧
    ∀ j, j ≠ k → p.signatureFindings options j = q.signatureFindings options j ∧
      p.bodyFindings options j = q.bodyFindings options j := by
  obtain ⟨s, hs⟩ := exists_signed hids hplain options
  obtain ⟨s', hs'⟩ := exists_signed hids' hplain' options
  constructor
  · intro n hn hn'
    refine told_analyze hs hs' (fun r hr hmem => ?_) (fun r hr hmem => ?_) ha hb
    · obtain ⟨j, hr⟩ := mem_readings_iff.mp hr
      have hj : j ≠ k := by
        rintro rfl
        exact hn (mem_ids_of_mem_readingsIn h.file hr hmem)
      obtain ⟨r', -, hm⟩ := exists_mem_of_forall₂ (h.matches_at hj) hr
      exact ⟨r', hm⟩
    · obtain ⟨j, hr⟩ := mem_readings_iff.mp hr
      have hj : j ≠ k := by
        rintro rfl
        exact hn' (mem_ids_of_mem_readingsIn h.file' hr hmem)
      obtain ⟨r', -, hm⟩ := exists_mem_of_forall₂ (h.matches_at hj).flip hr
      exact ⟨r', hm.symm⟩
  · intro j hj
    rw [hs.signatureFindings_eq, hs'.signatureFindings_eq, hs.bodyFindings_eq, hs'.bodyFindings_eq]
    constructor
    · exact flatMap_eq_of_forall₂ ((h.matches_at hj).imp fun r r' hm => hm.alike.findings_eq.symm)
    · exact (Checked.Mirrors.forM ((h.matches_at hj).imp fun r r' hm =>
        hm.mirrors_bodyOf hs hs')).findings

/-- The second file of the sample program with another body, and with a function of its own that has
the name of a function of the other file and returns what it must not. -/
def twoOtherwise : SourceFile :=
  ⟨"two.kiln", .numbered 26, [
    .fnDef ⟨.numbered 31, ⟨.numbered 32, "main", .fileOnly, [],
      .pointer (.numbered 33) .constant (.named (.numbered 34) "i32"), []⟩,
      .number (.numbered 35) "2"⟩,
    .fnDef ⟨.numbered 27, ⟨.numbered 28, "two", .shared, [], .named (.numbered 29) "i32", []⟩,
      .call (.numbered 30) (.symbol (.numbered 36) "two") []⟩]⟩

def sampleReplaced : Program := { sample with files := sample.files.set 1 twoOtherwise }

theorem sample_replaced : sample.Replaced sampleReplaced 1 ((sample.files)[1]) twoOtherwise where
  file := rfl
  files := rfl
  entry := rfl
  notEntry := by decide
  interface := rfl
  kept := by decide
  kept' := by decide

/-- There is a finding in the new file, and the other file is not touched by it: its call of `two` has
the type that it had. -/
theorem sampleReplaced_apart : ∃ a b, sample.analyze .none = .ok a ∧
    sampleReplaced.analyze .none = .ok b ∧ a.findings = [] ∧ b.findings.length = 1 ∧
    a.told (Node.numbered 10).id = b.told (Node.numbered 10).id ∧
    sample.bodyFindings .none 0 = sampleReplaced.bodyFindings .none 0 := by
  have hone : (sampleReplaced.analyze .none).map (·.findings.length) = .ok 1 := by decide +kernel
  obtain ⟨b, hb, hlength⟩ := map_eq_ok_iff.mp hone
  obtain ⟨a, ha, hclean, -⟩ := sample_ok
  rw [Analysis.diagnostics, List.map_eq_nil_iff] at hclean
  obtain ⟨htold, hfound⟩ := analyze_replaced sample_replaced (by decide) (by decide) (by decide)
    (by decide) ha hb
  exact ⟨a, b, ha, hb, hclean, hlength, htold _ (by decide) (by decide), (hfound 0 (by decide)).2⟩

end Program

end Sema
