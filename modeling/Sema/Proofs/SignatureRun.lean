import Sema.Proofs.SignatureStep

/-!
The signatures of a whole program. What one declaration does is composed over the declarations of a
file and over the files: the analysis that results is that of `Program.readings`, and the tables of
names lead to the functions that are visible.
-/

namespace Sema

namespace Analysis

/-- The artifact after declarations. -/
def outputAfter (o : Output) (rs : List Reading) : Output :=
  rs.foldl (fun o r => (r.honors.map o.honor).getD o) o

/-- What the reading of declarations does. -/
structure Runs (a : Analysis) (rs : List Reading) (b : Analysis) : Prop where
  within : a.Within b
  functions : b.functions = a.functions ++ rs.flatMap Reading.functions
  written : b.notes.written = a.notes.written ++ rs.flatMap Reading.noted
  findings : Finds (∀ r ∈ rs, r.IsPlain) (rs.flatMap Reading.findings) a.findings b.findings
  output : b.output = outputAfter a.output rs
  libraries : b.libraries = Text.insertAll (rs.flatMap (·.decl.links)) a.libraries
  skipped : ∀ r ∈ rs, ∀ d ∈ r.redefined, b.notes.get? d.node.id = some (.fnDef true none)

/-- What every honored root export settles is settled when it was before or one is honored. -/
theorem settled_outputAfter (settled : Output → Bool) (rs : List Reading)
    (h : ∀ r ∈ rs, ∀ e ∈ r.honors, ∀ o : Output, settled (o.honor e) = true) (o : Output) :
    settled (outputAfter o rs) = (settled o || rs.any (·.honors.isSome)) := by
  induction rs generalizing o with
  | nil => simp [outputAfter]
  | cons r rs ih =>
    obtain ⟨hr, hrs⟩ := List.forall_mem_cons.mp h
    have hcons : outputAfter o (r :: rs) = outputAfter ((r.honors.map o.honor).getD o) rs := rfl
    rw [hcons, ih hrs, List.any_cons]
    cases he : r.honors with
    | none => simp
    | some e => simp [hr e he]

theorem isSome_decl_outputAfter (o : Output) (rs : List Reading) :
    (outputAfter o rs).decl.isSome = (o.decl.isSome || rs.any (·.honors.isSome)) :=
  settled_outputAfter (·.decl.isSome) rs (fun _ _ _ _ _ => rfl) o

namespace Runs

variable {rs qs : List Reading} {a b c : Analysis}

theorem refl (a : Analysis) : a.Runs [] a :=
  ⟨.refl a, by simp, by simp, .refl _, rfl, rfl, by simp⟩

theorem trans (h : a.Runs rs b) (h' : b.Runs qs c) : a.Runs (rs ++ qs) c where
  within := h.within.trans h'.within
  functions := by rw [h'.functions, h.functions, List.flatMap_append, List.append_assoc]
  written := by rw [h'.written, h.written, List.flatMap_append, List.append_assoc]
  findings := (h.findings.trans h'.findings).congr
    (fun hp => ⟨fun r hr => hp r (List.mem_append_left _ hr),
      fun r hr => hp r (List.mem_append_right _ hr)⟩) List.flatMap_append.symm
  output := by rw [h'.output, h.output, outputAfter, outputAfter, outputAfter, List.foldl_append]
  libraries := by rw [h'.libraries, h.libraries, List.flatMap_append, Text.insertAll_append]
  skipped := fun r hr d hd => by
    rcases List.mem_append.mp hr with hr | hr
    · exact h'.within.notes _ _ (h.skipped r hr d hd)
    · exact h'.skipped r hr d hd

theorem of_steps {r : Reading} {s s' : FileScan} (h : FileScan.Steps r s s') :
    s.analysis.Runs [r] s'.analysis where
  within := h.grows.within
  functions := by simpa using h.grows.functions
  written := by simpa using h.grows.written
  findings := h.grows.findings.congr (fun hp => hp r (List.mem_singleton_self r)) (by simp)
  output := h.output
  libraries := by rw [List.flatMap_singleton]; exact h.libraries
  skipped := fun r' hr d hd => by
    obtain rfl := List.mem_singleton.mp hr
    exact h.skipped d hd

end Runs

/-- The readings that an analysis meets in declarations. -/
def meets (a : Analysis) (l : List (FileContext × Decl)) : List Reading :=
  readingsFrom a.functions a.output.decl.isSome l

/-- The next declarations are read with what is known after those before them. -/
theorem Runs.meets_append {a b : Analysis} {l : List (FileContext × Decl)}
    (h : a.Runs (a.meets l) b) (m : List (FileContext × Decl)) :
    a.meets (l ++ m) = a.meets l ++ b.meets m := by
  unfold meets at *
  rw [readingsFrom_append, ← h.functions, h.output, ← isSome_decl_outputAfter]

theorem Runs.append {a b c : Analysis} {l m : List (FileContext × Decl)}
    (h : a.Runs (a.meets l) b) (h' : b.Runs (b.meets m) c) : a.Runs (a.meets (l ++ m)) c := by
  rw [h.meets_append]
  exact h.trans h'

/-- Where the notes of later declarations collide, those of all declarations do. -/
theorem Runs.not_clear {a b : Analysis} {l m n : List (FileContext × Decl)}
    (h : a.Runs (a.meets l) b) (hb : ¬ b.notes.Clear ((b.meets m).flatMap Reading.noted)) :
    ¬ a.notes.Clear ((a.meets (l ++ (m ++ n))).flatMap Reading.noted) := by
  intro hclear
  rw [← List.append_assoc] at hclear
  unfold meets at *
  rw [readingsFrom_append, List.flatMap_append] at hclear
  have hleft := hclear.left
  change Notes.Clear _ ((a.meets (l ++ m)).flatMap Reading.noted) at hleft
  rw [h.meets_append, List.flatMap_append, Notes.Clear, ← List.append_assoc] at hleft
  rw [Notes.Clear, h.written] at hb
  exact hb hleft

end Analysis

/-! ### The declarations of a file -/

namespace FileScan

variable {c : FileContext} {s s' : FileScan}

/-- What holds in the middle of a file, after the declarations `done`. -/
structure InFile (c : FileContext) (s : FileScan) (done : List Decl) (s' : FileScan) : Prop where
  sound : s'.Sound c.index
  runs : s.analysis.Runs (s.analysis.meets (done.map (c, ·))) s'.analysis
  locals : s'.analysis.locals = s.analysis.locals

theorem InFile.append {done : List Decl} {s1 s2 : FileScan} {d : Decl} (h : InFile c s done s1)
    (h2 : readDecl c s1 d = .ok s2) : InFile c s (done ++ [d]) s2 := by
  obtain ⟨hs2, hsteps⟩ := readDecl_steps h.sound h2
  refine ⟨hs2, ?_, hsteps.grows.locals.trans h.locals⟩
  rw [List.map_append]
  exact h.runs.append (.of_steps hsteps)

theorem readDecls_ok (hs : s.Sound c.index) {ds : List Decl}
    (h : ds.foldlM (readDecl c) s = .ok s') : InFile c s ds s' := by
  have hrun := foldlM_ok (InFile c s) (fun _ _ _ _ => InFile.append) ds [] s s'
    ⟨hs, .refl _, rfl⟩ h
  rwa [List.nil_append] at hrun

theorem readDecls_error (hs : s.Sound c.index) {ds : List Decl} {e : AnalysisError}
    (h : ds.foldlM (readDecl c) s = .error e) (rest : List (FileContext × Decl)) :
    (∃ n, e = .alreadyAnnotated n) ∧ ¬ s.analysis.notes.Clear
      ((s.analysis.meets (ds.map (c, ·) ++ rest)).flatMap Reading.noted) := by
  obtain ⟨seen, d, ds', s1, rfl, hrun, hd⟩ := foldlM_error (InFile c s)
    (fun _ _ _ _ => InFile.append) ds [] s ⟨hs, .refl _, rfl⟩ h
  rw [List.nil_append] at hrun
  obtain ⟨he, hnot⟩ := readDecl_error hrun.sound hd
  refine ⟨he, ?_⟩
  rw [List.map_append, List.map_cons, List.append_assoc, List.cons_append]
  refine hrun.runs.not_clear (m := [(c, d)]) (n := ds'.map (c, ·) ++ rest) ?_
  simpa [Analysis.meets, readingsFrom, reading] using hnot

end FileScan

/-! ### Files -/

namespace Analysis

/-- What holds of an analysis when the files below an index are done. -/
structure Filed (i : Nat) (a : Analysis) : Prop where
  sound : a.Sound
  count : a.locals.length = i
  locals : ∀ j name, (a.locals[j]?.bind (·.get? name)) =
    Function.latest (Function.isOwn j name) a.functions
  files : ∀ f ∈ a.functions, f.file < i

/-- A declaration adds functions of its own file only. -/
theorem file_of_mem_meets {a : Analysis} {c : FileContext} {ds : List Decl} {f : Function}
    (h : f ∈ (a.meets (ds.map (c, ·))).flatMap Reading.functions) : f.file = c.index := by
  unfold meets at h
  generalize a.functions = known at h
  generalize a.output.decl.isSome = honored at h
  induction ds generalizing known honored with
  | nil => cases h
  | cons d ds ih =>
    rw [List.map_cons, readingsFrom, List.flatMap_cons, List.mem_append] at h
    rcases h with h | h
    · have hd := List.mem_of_mem_filter h
      cases d with
      | fnDef d => rw [List.mem_singleton.mp hd]; rfl
      | externalBlock b =>
        obtain ⟨g, -, rfl⟩ := List.mem_map.mp hd
        rfl
      | rootExport e => cases hd
      | use u => cases hd
    · exact ih _ _ h

theorem Filed.beginFile {i : Nat} {a : Analysis} (h : a.Filed i) : FileScan.Sound i ⟨a, .empty⟩ :=
  ⟨h.sound, fun name => (Function.latest_isOwn_eq_none
    (fun f hf => Nat.ne_of_lt (h.files f hf)) name).symm⟩

theorem Filed.endFile {c : FileContext} {a : Analysis} {ds : List Decl} {s : FileScan}
    (ha : a.Filed c.index) (h : FileScan.InFile c ⟨a, .empty⟩ ds s) :
    Filed (c.index + 1) { s.analysis with locals := s.analysis.locals ++ [s.own] } := by
  have hfun := h.runs.functions
  have hown : ∀ f ∈ (Analysis.meets a (ds.map (c, ·))).flatMap Reading.functions,
      f.file = c.index := fun f hf => file_of_mem_meets hf
  have hfiles : ∀ f ∈ s.analysis.functions, f.file < c.index + 1 := by
    intro f hf
    rw [hfun, List.mem_append] at hf
    rcases hf with hf | hf
    · exact Nat.lt_succ_of_lt (ha.files f hf)
    · exact Nat.lt_succ_of_le (Nat.le_of_eq (hown f hf))
  have hcount : s.analysis.locals.length = c.index := by
    rw [h.locals]
    exact ha.count
  refine ⟨⟨h.sound.analysis.types, h.sound.analysis.valid, h.sound.analysis.distinct,
    h.sound.analysis.resolved, h.sound.analysis.globals, h.sound.analysis.definitions,
    h.sound.analysis.blamed⟩,
    by simp [hcount], ?_, hfiles⟩
  intro j name
  rcases Nat.lt_trichotomy j c.index with hj | rfl | hj
  · -- an earlier file keeps its table, and the new functions are not its own
    simp only
    rw [List.getElem?_append_left (hcount ▸ hj), h.locals, ha.locals, hfun,
      Function.latest_append_of_forall_not]
    intro g hg
    simp [Function.isOwn, hown g hg, Nat.ne_of_gt hj]
  · simp only
    rw [List.getElem?_append_right (Nat.le_of_eq hcount), hcount, Nat.sub_self]
    exact h.sound.own name
  · simp only
    rw [List.getElem?_eq_none (by simp [hcount]; omega), Function.latest_isOwn_eq_none]
    · rfl
    · intro f hf
      exact Nat.ne_of_lt (Nat.lt_of_lt_of_le (hfiles f hf) hj)

theorem readFile_ok {c : FileContext} {a b : Analysis} {f : SourceFile} (ha : a.Filed c.index)
    (h : a.readFile c f = .ok b) :
    b.Filed (c.index + 1) ∧ a.Runs (a.meets (f.decls.map (c, ·))) b := by
  simp only [readFile, bind_eq_ok_iff, pure_eq_ok_iff] at h
  obtain ⟨s, hs, rfl⟩ := h
  have hrun := FileScan.readDecls_ok ha.beginFile hs
  exact ⟨ha.endFile hrun, ⟨⟨hrun.runs.within.types, hrun.runs.within.notes⟩, hrun.runs.functions,
    hrun.runs.written, hrun.runs.findings, hrun.runs.output, hrun.runs.libraries,
    hrun.runs.skipped⟩⟩

theorem readFiles_append (entry : Nat) : ∀ (fs gs : List SourceFile) (a : Analysis) (i : Nat),
    readFiles entry a i (fs ++ gs) =
      readFiles entry a i fs >>= fun b => readFiles entry b (i + fs.length) gs
  | [], _, _, _ => rfl
  | f :: fs, gs, a, i => by
    rw [List.cons_append, readFiles, readFiles, bind_assoc, List.length_cons,
      Nat.add_comm fs.length, ← Nat.add_assoc]
    exact bind_congr fun b => readFiles_append entry fs gs b (i + 1)

theorem readFiles_ok {entry : Nat} : ∀ {fs : List SourceFile} {i : Nat} {a b : Analysis},
    a.Filed i → readFiles entry a i fs = .ok b →
      b.Filed (i + fs.length) ∧ a.Runs (a.meets (Program.declsFrom entry i fs)) b
  | [], i, a, b, ha, h => by
    rw [readFiles, Except.ok.injEq] at h
    subst h
    exact ⟨ha, .refl _⟩
  | f :: fs, i, a, b, ha, h => by
    rw [readFiles, bind_eq_ok_iff] at h
    obtain ⟨a', hfile, hrest⟩ := h
    obtain ⟨ha', hrun⟩ := readFile_ok (c := ⟨i, f.path, i == entry⟩) ha hfile
    obtain ⟨hb, hrun'⟩ := readFiles_ok ha' hrest
    refine ⟨?_, hrun.append hrun'⟩
    rw [List.length_cons, Nat.add_comm fs.length, ← Nat.add_assoc]
    exact hb

theorem readFiles_error {entry : Nat} {e : AnalysisError} :
    ∀ {fs : List SourceFile} {i : Nat} {a : Analysis}, a.Filed i →
      readFiles entry a i fs = .error e → (∃ n, e = .alreadyAnnotated n) ∧
        ¬ a.notes.Clear ((a.meets (Program.declsFrom entry i fs)).flatMap Reading.noted)
  | [], _, _, _, h => by cases h
  | f :: fs, i, a, ha, h => by
    rw [readFiles, bind_eq_error_iff] at h
    rcases h with h | ⟨a', hfile, hrest⟩
    · simp only [readFile, bind_eq_error_iff, pure, Except.pure, reduceCtorEq, and_false,
        exists_false, or_false] at h
      exact FileScan.readDecls_error (c := ⟨i, f.path, i == entry⟩) ha.beginFile h _
    · obtain ⟨ha', hrun⟩ := readFile_ok (c := ⟨i, f.path, i == entry⟩) ha hfile
      obtain ⟨he, hnot⟩ := readFiles_error ha' hrest
      refine ⟨he, ?_⟩
      have := hrun.not_clear (n := []) hnot
      rwa [List.append_nil] at this

theorem filed_initial (options : BuildOptions) : (initial options).Filed 0 where
  sound := ⟨TypeTable.wellFormed_initial, fun _ _ hx => (nomatch hx), List.nodup_nil,
    fun _ hf => absurd hf List.not_mem_nil, fun _ => rfl, rfl,
    fun h => absurd h TypeTable.not_pointsToInvalid_initial⟩
  count := rfl
  locals := fun _ _ => rfl
  files := fun _ hf => absurd hf List.not_mem_nil

/-- The function that a name leads to is the one that is visible. -/
theorem Filed.lookupFunction_spec {i : Nat} {a : Analysis} (h : a.Filed i) (file : Nat)
    (name : String) :
    match a.lookupFunction file name with
    | some k => ∃ f, a.function? k = some f ∧ Function.visible file name a.functions = some f
    | none => Function.visible file name a.functions = none := by
  rw [lookupFunction, h.locals, h.sound.globals]
  exact Function.latest_or_spec file name a.functions

end Analysis

/-! ### Programs -/

namespace Program

/-- The signatures of a program are those of its readings. -/
theorem signatures_ok {p : Program} {options : BuildOptions} {a : Analysis}
    (h : (Analysis.initial options).readFiles p.entry.toNat 0 p.files = .ok a) :
    a.Filed p.files.length ∧ (Analysis.initial options).Runs p.readings a := by
  obtain ⟨hfiled, hruns⟩ := Analysis.readFiles_ok (Analysis.filed_initial options) h
  rw [Nat.zero_add] at hfiled
  exact ⟨hfiled, hruns⟩

/-- Reading the signatures stops only at a node with two notes. -/
theorem signatures_error {p : Program} {options : BuildOptions} {e : AnalysisError}
    (h : (Analysis.initial options).readFiles p.entry.toNat 0 p.files = .error e) :
    (∃ n, e = .alreadyAnnotated n) ∧
      ¬ ((p.readings.flatMap Reading.noted).map Prod.fst).Nodup :=
  Analysis.readFiles_error (Analysis.filed_initial options) h

theorem functions_eq {p : Program} {options : BuildOptions} {a : Analysis}
    (h : (Analysis.initial options).Runs p.readings a) : a.functions = p.functions :=
  h.functions

/-- The redefinitions that are reported are those of the readings. -/
theorem filter_findings_eq {p : Program} {options : BuildOptions} {a : Analysis}
    (h : (Analysis.initial options).Runs p.readings a) :
    a.findings.filter Finding.isRedefinition =
      p.readings.flatMap fun r => r.redefined.map r.redefinition := by
  have hnil : (Analysis.initial options).findings = [] := rfl
  rw [h.findings.filter_eq fun _ => Finding.ofType_eq_false_of_isRedefinition, hnil, List.filter_nil,
    List.nil_append, List.filter_flatMap]
  exact List.flatMap_congr fun r _ => r.filter_findings

/-- A body is left out exactly when a definition with its node repeats a name. -/
theorem isSkipped_iff {p : Program} {options : BuildOptions} {a : Analysis}
    (h : (Analysis.initial options).Runs p.readings a) (hd : a.notes.Distinct) {n : NodeId} :
    a.notes.isSkipped n ↔ ∃ r ∈ p.readings, ∃ d ∈ r.redefined, d.node.id = n := by
  rw [Notes.isSkipped_iff hd, h.written]
  have hnil : (Analysis.initial options).notes.written = [] := rfl
  simp [hnil, Reading.noted, TypeRef.noted]

/-- Where nothing was found, no body is left out. -/
theorem isSkipped_eq_false {p : Program} {options : BuildOptions} {a : Analysis}
    (h : (Analysis.initial options).Runs p.readings a) (hd : a.notes.Distinct)
    (hf : a.findings = []) (n : NodeId) : a.notes.isSkipped n = false := by
  rw [← Bool.not_eq_true, isSkipped_iff h hd]
  rintro ⟨r, hr, d, hd, -⟩
  have hnone := filter_findings_eq h
  rw [hf, List.filter_nil, eq_comm, List.flatMap_eq_nil_iff] at hnone
  have := hnone r hr
  rw [List.map_eq_nil_iff] at this
  rw [this] at hd
  cases hd

/-- A definition that is not left out is registered. -/
theorem mem_functions_of_not_skipped {p : Program} {options : BuildOptions} {a : Analysis}
    (h : (Analysis.initial options).Runs p.readings a) {c : FileContext} {d : FnDef}
    (hd : (c, Decl.fnDef d) ∈ p.decls) (hskip : a.notes.isSkipped d.node.id = false) :
    .defined d.proto d.node.id c.index ∈ a.functions := by
  obtain ⟨r, hr, rfl, hdecl⟩ := exists_reading hd
  have hfun := Reading.functions_fnDef hdecl
  have hred := Reading.redefined_fnDef hdecl
  split at hfun
  · next hrep =>
    rw [if_pos hrep] at hred
    have hnote := h.skipped r hr d (hred ▸ List.mem_singleton_self d)
    rw [Notes.isSkipped, hnote] at hskip
    cases hskip
  · rw [functions_eq h]
    exact List.mem_flatMap.mpr ⟨r, hr, hfun ▸ List.mem_singleton_self _⟩

end Program

end Sema
