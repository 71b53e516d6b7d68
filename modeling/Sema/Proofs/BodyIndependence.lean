import Sema.Proofs.Coverage

/-!
Bodies are checked apart from each other. What the signatures leave is all that a body sees, and a
body leaves nothing that another one sees. So another body for one definition changes the notes and
the findings of this body alone.
-/

namespace Sema

/-- Whether `q` is `p` with `body` as the body of the definition `d`, which stands in the file told
by `c`. -/
structure Program.Rebodied (p q : Program) (c : FileContext) (d : FnDef) (body : Expr) : Prop where
  entry : q.entry = p.entry
  files : ∃ (before after : List SourceFile) (f : SourceFile) (ds es : List Decl),
    p.files = before ++ { f with decls := ds ++ .fnDef d :: es } :: after ∧
    q.files = before ++ { f with decls := ds ++ .fnDef { d with body := body } :: es } :: after ∧
    c = ⟨before.length, f.path, before.length == p.entry.toNat⟩

/-- Where a fault of a program is reported depends on the places of its files alone. -/
theorem Analysis.programPlace_congr {p q : Program} (hentry : q.entry = p.entry)
    (hfiles : q.files.map (fun f => (f.path, f.root.pos)) =
      p.files.map fun f => (f.path, f.root.pos)) : programPlace q = programPlace p := by
  have hplace : ∀ r : Program, programPlace r =
      ((r.files.map fun f => (f.path, f.root.pos))[r.entry.toNat]?).getD
        ("<program>", .nowhere) := by
    intro r
    rw [programPlace, Program.entryFile?, List.getElem?_map]
    cases r.files[r.entry.toNat]? <;> rfl
  rw [hplace, hplace, hentry, hfiles]

theorem Analysis.outputFindings_congr {p q : Program} (h : programPlace q = programPlace p)
    (o : Output) : outputFindings q o = outputFindings p o := by
  rw [outputFindings, h, outputFindings]

/-! ### Signatures -/

/-- The signatures of a file do not depend on a body. -/
theorem Analysis.readFile_rebodied (c : FileContext) (a : Analysis) (f : SourceFile)
    (ds es : List Decl) (d : FnDef) (body : Expr) :
    a.readFile c { f with decls := ds ++ .fnDef { d with body := body } :: es } =
      a.readFile c { f with decls := ds ++ .fnDef d :: es } := by
  unfold readFile
  simp only [List.foldlM_append, List.foldlM_cons]
  rfl

namespace Program.Rebodied

variable {p q : Program} {c : FileContext} {d : FnDef} {body : Expr}

theorem readFiles_eq (h : p.Rebodied q c d body) (a : Analysis) :
    a.readFiles q.entry.toNat 0 q.files = a.readFiles p.entry.toNat 0 p.files := by
  obtain ⟨before, after, f, ds, es, hp, hq, -⟩ := h.files
  rw [h.entry, hp, hq, Analysis.readFiles_append, Analysis.readFiles_append]
  refine bind_congr fun b => ?_
  rw [Analysis.readFiles, Analysis.readFiles, Analysis.readFile_rebodied]

theorem decls_eq (h : p.Rebodied q c d body) : ∃ before after,
    p.decls = before ++ (c, .fnDef d) :: after ∧
    q.decls = before ++ (c, .fnDef { d with body := body }) :: after := by
  obtain ⟨before, after, f, ds, es, hp, hq, hc⟩ := h.files
  refine ⟨declsFrom p.entry.toNat 0 before ++ ds.map (c, ·),
    es.map (c, ·) ++ declsFrom p.entry.toNat (before.length + 1) after, ?_, ?_⟩
  · simp [decls, hp, hc, declsFrom_append, declsFrom]
  · simp [decls, h.entry, hq, hc, declsFrom_append, declsFrom]

/-- A fault of the program as a whole is reported at the same place. -/
theorem programPlace_eq (h : p.Rebodied q c d body) :
    Analysis.programPlace q = Analysis.programPlace p := by
  obtain ⟨before, after, f, ds, es, hp, hq, -⟩ := h.files
  exact Analysis.programPlace_congr h.entry (by simp [hp, hq])

end Program.Rebodied

/-! ### Bodies -/

/-- The notes that checking declarations gives. -/
def Analysis.notesIn (a : Analysis) (l : List (FileContext × Decl)) : List (NodeId × Note) :=
  l.flatMap fun x => (Scope.checkDecl ⟨a, x.1.index, x.1.path⟩ x.2).notes

/-- What is found when declarations are checked. -/
def Analysis.findingsIn (a : Analysis) (l : List (FileContext × Decl)) : List Finding :=
  l.flatMap fun x => (Scope.checkDecl ⟨a, x.1.index, x.1.path⟩ x.2).findings

/-- What checking a definition to its end gives: what its body gives, and a note on the definition
itself. -/
theorem Scope.checkDefinition_of_ok {s : Scope} {d : FnDef}
    (hskip : s.analysis.notes.isSkipped d.node.id = false)
    (h : (s.checkDefinition d).outcome = .ok ()) :
    ∃ ret t, s.analysis.notes.resolvedType? d.proto.returnType.node.id = some ret ∧
      s.checkDefinition d = ⟨(s.check ret (some ret) d.body).notes ++
        [(d.node.id, .fnDef false (some t))], (s.check ret (some ret) d.body).findings, .ok ()⟩ := by
  rw [checkDefinition, hskip, if_neg Bool.false_ne_true] at h ⊢
  cases hret : s.analysis.notes.resolvedType? d.proto.returnType.node.id with
  | none =>
    rw [resolvedType, hret] at h
    cases h
  | some ret =>
    have hpure : s.resolvedType d.proto.returnType = pure ret := by rw [resolvedType, hret]; rfl
    rw [hpure, pure_bind] at h ⊢
    cases ht : (s.check ret (some ret) d.body).outcome with
    | error e =>
      rw [Checked.bind_eq, Checked.bind, ht] at h
      cases h
    | ok t =>
      refine ⟨ret, t, rfl, ?_⟩
      rw [Checked.bind_eq, Checked.bind, ht]
      simp [Checked.note]

/-! ### Notes -/

/-- Where some of the notes that are written differ, the notes of all other nodes are the same. -/
theorem Notes.get?_recordAll_congr {t u v : Notes} {l m m' r : List (NodeId × Note)}
    (hu : t.recordAll (l ++ m ++ r) = .ok u) (hv : t.recordAll (l ++ m' ++ r) = .ok v) {n : NodeId}
    (hn : n ∉ m.map Prod.fst) (hn' : n ∉ m'.map Prod.fst) : u.get? n = v.get? n := by
  have hside : ∀ {u v : Notes} {m m' : List (NodeId × Note)} {x : Note},
      t.recordAll (l ++ m ++ r) = .ok u → t.recordAll (l ++ m' ++ r) = .ok v →
        n ∉ m.map Prod.fst → u.get? n = some x → v.get? n = some x := by
    intro u v m m' x hu hv hn hx
    have hall := recordedAll hv
    rcases (recordedAll hu).old_or_new n x hx with hold | hnew
    · exact hall.within n x hold
    · rw [List.mem_append, List.mem_append] at hnew
      rcases hnew with (hl | hm) | hr
      · exact hall.get? (n, x) (List.mem_append_left _ (List.mem_append_left _ hl))
      · exact absurd (List.mem_map_of_mem hm) hn
      · exact hall.get? (n, x) (List.mem_append_right _ hr)
  exact Option.ext fun x => ⟨hside hu hv hn, hside hv hu hn'⟩

namespace Program

variable {p q : Program} {c : FileContext} {d : FnDef} {body : Expr} {options : BuildOptions}
  {a b : Analysis}

/-- What checking all bodies gives, told about one of them that is not left out. -/
theorem checkFiles_around {s : Analysis} {before after : List (FileContext × Decl)}
    (h : p.decls = before ++ (c, .fnDef d) :: after)
    (hskip : s.notes.isSkipped d.node.id = false)
    (hok : (s.checkFiles 0 p.files).outcome = .ok ()) :
    ∃ ret t, s.notes.resolvedType? d.proto.returnType.node.id = some ret ∧
      s.checkFiles 0 p.files =
        ⟨s.notesIn before ++ ((Scope.check ⟨s, c.index, c.path⟩ ret (some ret) d.body).notes ++
            [(d.node.id, .fnDef false (some t))]) ++ s.notesIn after,
          s.findingsIn before ++ (Scope.check ⟨s, c.index, c.path⟩ ret (some ret) d.body).findings ++
            s.findingsIn after,
          .ok ()⟩ := by
  rw [Analysis.checkFiles_eq p.entry.toNat] at hok ⊢
  rw [← decls] at hok ⊢
  have hall := Checked.outcome_forM_iff.mp hok
  have hself := hall (c, .fnDef d) (by rw [h]; simp)
  obtain ⟨ret, t, hret, hbody⟩ := Scope.checkDefinition_of_ok hskip hself
  refine ⟨ret, t, hret, ?_⟩
  rw [Checked.forM_of_ok hall, h, List.flatMap_append, List.flatMap_append, List.flatMap_cons,
    List.flatMap_cons]
  simp only [Scope.checkDecl, hbody, Analysis.notesIn, Analysis.findingsIn, List.append_assoc]

/-- Only the notes of the body and of its definition are from the body. -/
theorem not_mem_bodyNotes {s : Scope} {ret : TypeId} {E : Option TypeId} {e : Expr} {x : Note}
    {n k : NodeId} (hn : n ∉ e.parts.map Expr.id) (hk : n ≠ k) :
    n ∉ ((s.check ret E e).notes ++ [(k, x)]).map Prod.fst := by
  rw [List.map_append, List.mem_append]
  rintro (hmem | hmem)
  · exact hn ((Scope.within_check ret e E).subset hmem)
  · exact hk (List.mem_singleton.mp hmem)

/-- Another body for one definition changes no more than what is found in this body, the notes on
its parts, and the type of the body in the note on the definition. -/
theorem analyze_rebodied (h : p.Rebodied q c d body) (hids : p.ids.Nodup)
    (hkept : (c, d) ∉ p.redefinitions) (ha : p.analyze options = .ok a)
    (hb : q.analyze options = .ok b) : ∃ s ret before after t t',
      (Analysis.initial options).readFiles p.entry.toNat 0 p.files = .ok s ∧
      s.notes.resolvedType? d.proto.returnType.node.id = some ret ∧
      a = { s with
        notes := a.notes
        findings := before ++ (Scope.check ⟨s, c.index, c.path⟩ ret (some ret) d.body).findings ++
          after } ∧
      b = { s with
        notes := b.notes
        findings := before ++ (Scope.check ⟨s, c.index, c.path⟩ ret (some ret) body).findings ++
          after } ∧
      a.notes.get? d.node.id = some (.fnDef false (some t)) ∧
      b.notes.get? d.node.id = some (.fnDef false (some t')) ∧
      ∀ n, n ∉ d.body.parts.map Expr.id → n ∉ body.parts.map Expr.id → n ≠ d.node.id →
        a.notes.get? n = b.notes.get? n := by
  obtain ⟨s, notes, hs, hnotes, hok, rfl⟩ := analyze_eq_ok_iff.mp ha
  obtain ⟨s', notes', hs', hnotes', hok', rfl⟩ := analyze_eq_ok_iff.mp hb
  rw [h.readFiles_eq, hs] at hs'
  obtain rfl := Except.ok.inj hs'
  obtain ⟨hfiled, hruns⟩ := signatures_ok hs
  obtain ⟨before, after, hp, hq⟩ := h.decls_eq
  have hdecl : (c, Decl.fnDef d) ∈ p.decls := by rw [hp]; simp
  obtain ⟨r, hr, hdr, -⟩ := mem_kept_iff.mp
    ((mem_kept_iff_not_mem_redefinitions hids).mpr ⟨hdecl, hkept⟩)
  have hskip := not_isSkipped_of_kept hids hruns hfiled.sound.distinct hr d hdr
  obtain ⟨ret, t, hret, hbody⟩ := checkFiles_around hp hskip hok
  obtain ⟨ret', t', hret', hbody'⟩ := checkFiles_around hq hskip hok'
  obtain rfl : ret' = ret := Option.some.inj (hret'.symm.trans hret)
  have hout : Analysis.outputFindings q s.output = Analysis.outputFindings p s.output := by
    rw [Analysis.outputFindings, h.programPlace_eq, Analysis.outputFindings]
  rw [hbody] at hnotes
  rw [hbody'] at hnotes'
  refine ⟨s, ret', s.findings ++ s.findingsIn before,
    s.findingsIn after ++ Analysis.outputFindings p s.output, t, t', hs, hret, ?_, ?_, ?_, ?_,
    fun n hn hn' hne => ?_⟩
  · rw [hbody]
    simp only [List.append_assoc]
  · rw [hbody', hout]
    simp only [List.append_assoc]
  · exact (Notes.recordedAll hnotes).get? (d.node.id, _) (by simp)
  · exact (Notes.recordedAll hnotes').get? (d.node.id, _) (by simp)
  · exact Notes.get?_recordAll_congr hnotes hnotes' (not_mem_bodyNotes hn hne)
      (not_mem_bodyNotes hn' hne)

/-- A call of a function that is nowhere. -/
def callAstray : Expr := .call (.numbered 40) (.symbol (.numbered 41) "nowhere") []

/-- The sample program with such a call as the body of `main`. -/
def sampleAstray : Program where
  files := sample.files.modify 0 fun f => { f with
    decls := f.decls.set 2 (.fnDef { FnDef.sample with body := callAstray }) }
  entry := 0

theorem sample_rebodied :
    sample.Rebodied sampleAstray ⟨0, "main.kiln", true⟩ .sample callAstray where
  entry := rfl
  files := ⟨[], sample.files.drop 1, ⟨"main.kiln", .numbered 15, []⟩,
    (sample.files.flatMap (·.decls)).take 2, [], rfl, rfl, rfl⟩

theorem sample_redefinitions : sample.redefinitions = [] := by decide

theorem sampleAstray_ok : ∃ b, sampleAstray.analyze .none = .ok b ∧
    b.findings = [⟨"main.kiln", .start, .undefinedFunction "nowhere"⟩] := by
  have h : (sampleAstray.analyze .none).map Analysis.findings =
      .ok [⟨"main.kiln", .start, .undefinedFunction "nowhere"⟩] := by
    decide +kernel
  exact map_eq_ok_iff.mp h

/-- The other function of the sample program is not touched by that call. -/
theorem sampleAstray_apart : ∃ a b, sample.analyze .none = .ok a ∧
    sampleAstray.analyze .none = .ok b ∧ a.types = b.types ∧ a.functions = b.functions ∧
    a.globals = b.globals ∧ a.locals = b.locals ∧ a.output = b.output ∧
    a.libraries = b.libraries ∧ a.notes.get? ⟨30⟩ = b.notes.get? ⟨30⟩ := by
  obtain ⟨a, ha, -⟩ := sample_ok
  obtain ⟨b, hb, -⟩ := sampleAstray_ok
  obtain ⟨s, ret, before, after, t, t', -, -, ha', hb', -, -, hsame⟩ :=
    analyze_rebodied sample_rebodied (by decide) (by simp [sample_redefinitions]) ha hb
  refine ⟨a, b, ha, hb, ?_, ?_, ?_, ?_, ?_, ?_, hsame _ (by decide) (by decide) (by decide)⟩
  all_goals rw [ha', hb']

end Program

end Sema
