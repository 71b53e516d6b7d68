import Sema.Proofs.BodyIndependence
import Sema.Proofs.InTurn
import Sema.Proofs.Refusal
import Sema.Proofs.SignatureFrame

/-!
Definitions that repeat a name. Such a definition leaves one note and one finding behind; nothing that
comes later is read or checked differently for it, so without it all else is the same.
-/

namespace Sema

/-- Whether `q` is `p` without the definition `d`, which stands in the file told by `c`. -/
structure Program.Without (p q : Program) (c : FileContext) (d : FnDef) : Prop where
  entry : q.entry = p.entry
  files : ∃ (before after : List SourceFile) (f : SourceFile) (ds es : List Decl),
    p.files = before ++ { f with decls := ds ++ .fnDef d :: es } :: after ∧
    q.files = before ++ { f with decls := ds ++ es } :: after ∧
    c = ⟨before.length, f.path, before.length == p.entry.toNat⟩

/-! ### Notes -/

namespace Notes

variable {t u : Notes} {ls rs : List (NodeId × Note)} {m n : NodeId} {x : Note}

theorem get?_of_slots_append (ht : t.slots = ls ++ rs) :
    t.get? n = (get? ⟨ls⟩ n).or (get? ⟨rs⟩ n) := by
  rw [get?, ht, List.lookup_append]
  rfl

theorem get?_of_slots_insert (ht : t.slots = ls ++ (m, x) :: rs) (hu : u.slots = ls ++ rs)
    (hn : n ≠ m) : t.get? n = u.get? n := by
  rw [get?_of_slots_append ht, get?_of_slots_append hu, get?_cons ⟨rs⟩, if_neg hn]

/-- A node with a note has no other. -/
theorem get?_eq_none_of_insert (ht : t.Distinct) (hslots : t.slots = ls ++ (m, x) :: rs) :
    get? ⟨ls ++ rs⟩ m = none := by
  rw [Distinct, hslots] at ht
  exact lookup_eq_none_iff_not_mem.mpr (nodup_middle_iff.mp ht).1

theorem slots_of_recordAll : ∀ {l : List (NodeId × Note)} {t u : Notes}, t.recordAll l = .ok u →
    u.slots = l.reverse ++ t.slots
  | [], t, u, h => by
    obtain rfl := Except.ok.inj h
    rfl
  | (n, x) :: l, t, u, h => by
    rw [recordAll, bind_eq_ok_iff] at h
    obtain ⟨v, hv, h⟩ := h
    obtain ⟨-, rfl⟩ := record_eq_ok.mp hv
    rw [slots_of_recordAll h]
    simp

end Notes

/-! ### Signatures -/

namespace FileScan

/-- The rest of a file, and the files after it. -/
def readRest (entry : Nat) (c : FileContext) (ds : List Decl) (fs : List SourceFile)
    (s : FileScan) : Except AnalysisError Analysis := do
  let s ← ds.foldlM (readDecl c) s
  Analysis.readFiles entry { s.analysis with locals := s.analysis.locals ++ [s.own] } (c.index + 1) fs

theorem readRest_cons (entry : Nat) (c : FileContext) (d : Decl) (ds : List Decl)
    (fs : List SourceFile) (s : FileScan) : readRest entry c (d :: ds) fs s =
      readDecl c s d >>= readRest entry c ds fs := by
  rw [readRest, List.foldlM_cons, bind_assoc]
  rfl

theorem readRest_atop {entry : Nat} {c : FileContext} {ds : List Decl} {fs : List SourceFile}
    {s : FileScan} {t : Notes} {found : List Finding} {b : Analysis}
    (h : readRest entry c ds fs (s.atop t found) = .ok b) :
    ∃ b', readRest entry c ds fs s = .ok b' ∧ b = b'.atop t found := by
  unfold readRest at h ⊢
  obtain ⟨r, hr, h⟩ := bind_eq_ok_iff.mp h
  obtain ⟨r', hr', rfl⟩ := readDecls_atop hr
  obtain ⟨b', hb', rfl⟩ := Analysis.readFiles_atop (a := { r'.analysis with
    locals := r'.analysis.locals ++ [r'.own] }) h
  exact ⟨b', bind_eq_ok_iff.mpr ⟨r', hr', hb'⟩, rfl⟩

/-- A definition that repeats a name leaves a note and a finding. -/
theorem readDefinition_of_isRedefinition {c : FileContext} {s s' : FileScan} {d : FnDef}
    (hred : s.isRedefinition d.proto) (h : readDefinition c s d = .ok s') :
    s' = FileScan.atop ⟨s.analysis.bare, s.own⟩
      ⟨(d.node.id, .fnDef true none) :: s.analysis.notes.slots⟩
      (s.analysis.findings ++ [⟨c.path, d.node.pos, .redefinition d.proto.name⟩]) := by
  rw [readDefinition, if_pos hred] at h
  simp only [bind_eq_ok_iff, pure_eq_ok_iff, Analysis.record_eq_ok, Notes.record_eq_ok] at h
  obtain ⟨_, ⟨_, ⟨-, rfl⟩, rfl⟩, rfl⟩ := h
  simp [atop, Analysis.atop, Analysis.bare, Analysis.report, Notes.empty]

end FileScan

/-- Files are read up to a declaration, then this, then the rest. -/
theorem Analysis.readFiles_cut (entry : Nat) (a : Analysis) (before after : List SourceFile)
    (f : SourceFile) (ds es : List Decl) :
    a.readFiles entry 0 (before ++ { f with decls := ds ++ es } :: after) = (do
      let b ← a.readFiles entry 0 before
      let s ← ds.foldlM (FileScan.readDecl ⟨before.length, f.path, before.length == entry⟩)
        ⟨b, .empty⟩
      FileScan.readRest entry ⟨before.length, f.path, before.length == entry⟩ es after s) := by
  rw [readFiles_append]
  refine bind_congr fun b => ?_
  simp only [readFiles, readFile, List.foldlM_append, FileScan.readRest, bind_assoc, pure_bind,
    Nat.zero_add]

namespace Program

variable {p q : Program} {c : FileContext} {d : FnDef} {options : BuildOptions} {a b : Analysis}

/-- What has been read when a declaration is met decides whether it repeats a name. -/
theorem isRedefinition_of_mem {before after : List SourceFile} {f : SourceFile} {ds es : List Decl}
    {a : Analysis} {s : FileScan} (hids : p.ids.Nodup)
    (hp : p.files = before ++ { f with decls := ds ++ .fnDef d :: es } :: after)
    (hc : c = ⟨before.length, f.path, before.length == p.entry.toNat⟩)
    (ha : (Analysis.initial options).readFiles p.entry.toNat 0 before = .ok a)
    (hs : ds.foldlM (FileScan.readDecl c) ⟨a, .empty⟩ = .ok s)
    (hred : (c, d) ∈ p.redefinitions) : s.isRedefinition d.proto := by
  obtain ⟨hfiled, hruns⟩ := Analysis.readFiles_ok (Analysis.filed_initial options) ha
  have hindex : 0 + before.length = c.index := by rw [hc, Nat.zero_add]
  rw [hindex] at hfiled
  have hin := FileScan.readDecls_ok hfiled.beginFile hs
  have hrun := hruns.append hin.runs
  have hdecls : p.decls = declsFrom p.entry.toNat 0 before ++ ds.map (c, ·) ++
      (c, .fnDef d) :: (es.map (c, ·) ++ declsFrom p.entry.toNat (before.length + 1) after) := by
    simp [decls, hp, hc, declsFrom_append, declsFrom]
  have hreadings : p.readings = (Analysis.initial options).meets p.decls := rfl
  have hmem : s.reading c (.fnDef d) ∈ p.readings := by
    rw [hreadings, hdecls, hrun.meets_append]
    exact List.mem_append_right _ (List.mem_cons_self ..)
  obtain ⟨r, hr, hd, -⟩ := mem_redefinitions_iff.mp hred
  have hdecl := Reading.decl_eq_of_mem_redefined hd
  obtain rfl := reading_unique hids hr hmem (n := d.node.id) (by simp [hdecl, Decl.ids])
    (by simp [FileScan.reading, Decl.ids])
  rw [← FileScan.repeats_fnDef hin.sound]
  rw [Reading.redefined_fnDef hdecl] at hd
  split at hd
  · next hrep => exact hrep
  · cases hd

namespace Without

theorem decls_eq (h : p.Without q c d) : ∃ before after,
    p.decls = before ++ (c, .fnDef d) :: after ∧ q.decls = before ++ after := by
  obtain ⟨before, after, f, ds, es, hp, hq, hc⟩ := h.files
  refine ⟨declsFrom p.entry.toNat 0 before ++ ds.map (c, ·),
    es.map (c, ·) ++ declsFrom p.entry.toNat (before.length + 1) after, ?_, ?_⟩
  · simp [decls, hp, hc, declsFrom_append, declsFrom]
  · simp [decls, h.entry, hq, hc, declsFrom_append, declsFrom]

theorem nodup_ids (h : p.Without q c d) (hids : p.ids.Nodup) : q.ids.Nodup := by
  obtain ⟨before, after, hp, hq⟩ := h.decls_eq
  refine hids.sublist ?_
  rw [ids, ids, hp, hq, List.flatMap_append, List.flatMap_append, List.flatMap_cons]
  exact (List.sublist_append_right _ _).append_left _

theorem programPlace_eq (h : p.Without q c d) :
    Analysis.programPlace q = Analysis.programPlace p := by
  obtain ⟨before, after, f, ds, es, hp, hq, -⟩ := h.files
  exact Analysis.programPlace_congr h.entry (by simp [hp, hq])

/-- After the signatures the note and the finding of the definition are all that it adds. -/
theorem signatures (h : p.Without q c d) (hids : p.ids.Nodup) (hred : (c, d) ∈ p.redefinitions)
    (ha : (Analysis.initial options).readFiles p.entry.toNat 0 p.files = .ok a)
    (hb : (Analysis.initial options).readFiles q.entry.toNat 0 q.files = .ok b) :
    ∃ ls rs fs gs, a.notes.slots = ls ++ (d.node.id, .fnDef true none) :: rs ∧
      a.findings = fs ++ ⟨c.path, d.node.pos, .redefinition d.proto.name⟩ :: gs ∧
      b = { a with notes := ⟨ls ++ rs⟩, findings := fs ++ gs } := by
  obtain ⟨before, after, f, ds, es, hp, hq, hc⟩ := h.files
  rw [h.entry, hq, Analysis.readFiles_cut, ← hc] at hb
  rw [hp, Analysis.readFiles_cut, ← hc] at ha
  simp only [bind_eq_ok_iff] at ha hb
  obtain ⟨a₀, ha₀, s, hs, ha⟩ := ha
  obtain ⟨b₀, hb₀, s', hs', hb⟩ := hb
  obtain rfl := Except.ok.inj (ha₀.symm.trans hb₀)
  obtain rfl := Except.ok.inj (hs.symm.trans hs')
  have hredef := isRedefinition_of_mem hids hp hc ha₀ hs hred
  rw [FileScan.readRest_cons, bind_eq_ok_iff] at ha
  obtain ⟨s₁, hs₁, ha⟩ := ha
  rw [FileScan.readDefinition_of_isRedefinition hredef hs₁] at ha
  -- both go on from the same state, on top of other notes and findings
  have hsame : s = FileScan.atop ⟨s.analysis.bare, s.own⟩ s.analysis.notes s.analysis.findings := by
    rw [FileScan.atop, Analysis.atop_bare]
  rw [hsame] at hb
  obtain ⟨r, hr, rfl⟩ := FileScan.readRest_atop ha
  obtain ⟨r', hr', rfl⟩ := FileScan.readRest_atop hb
  obtain rfl := Except.ok.inj (hr.symm.trans hr')
  exact ⟨r.notes.slots, s.analysis.notes.slots, s.analysis.findings, r.findings, rfl,
    by simp [Analysis.atop], rfl⟩

end Without

end Program

namespace Program

namespace Without

variable {p q : Program} {c : FileContext} {d : FnDef} {options : BuildOptions} {a b : Analysis}

theorem not_mem_ids (h : p.Without q c d) (hids : p.ids.Nodup) :
    ∀ x ∈ q.decls, d.node.id ∉ x.2.ids := by
  obtain ⟨before, after, hp, hq⟩ := h.decls_eq
  have hself : d.node.id ∈ (Decl.fnDef d).ids := by simp [Decl.ids]
  rw [ids, hp, List.flatMap_append, List.flatMap_cons] at hids
  intro x hx hn
  rw [hq, List.mem_append] at hx
  rcases hx with hx | hx
  · exact List.disjoint_of_nodup_append hids (List.mem_flatMap.mpr ⟨x, hx, hn⟩)
      (List.mem_append_left _ hself)
  · exact List.disjoint_of_nodup_append hids.of_append_right hself
      (List.mem_flatMap.mpr ⟨x, hx, hn⟩)

/-- The other declarations are checked as before, and the one that is gone was not checked. -/
theorem checkFiles_eq (h : p.Without q c d) (hids : p.ids.Nodup)
    (hred : (c, d) ∈ p.redefinitions)
    (ha : (Analysis.initial options).readFiles p.entry.toNat 0 p.files = .ok a)
    (hb : (Analysis.initial options).readFiles q.entry.toNat 0 q.files = .ok b) :
    b.checkFiles 0 q.files = a.checkFiles 0 p.files := by
  obtain ⟨hfiled, hruns⟩ := signatures_ok ha
  obtain ⟨ls, rs, fs, gs, hslots, -, rfl⟩ := h.signatures hids hred ha hb
  obtain ⟨r, hr, hd, -⟩ := mem_redefinitions_iff.mp hred
  have hskipped := hruns.skipped r hr d hd
  have hget : ∀ n, n ≠ d.node.id → Notes.get? ⟨ls ++ rs⟩ n = a.notes.get? n :=
    fun n hn => (Notes.get?_of_slots_insert hslots rfl hn).symm
  have hnone := Notes.get?_eq_none_of_insert hfiled.sound.distinct hslots
  have hresolved : ∀ n, Notes.resolvedType? ⟨ls ++ rs⟩ n = a.notes.resolvedType? n := by
    intro n
    by_cases hn : n = d.node.id
    · rw [hn, Notes.resolvedType?, Notes.resolvedType?, hnone, hskipped]
    · rw [Notes.resolvedType?, Notes.resolvedType?, hget n hn]
  have hdecl : ∀ x ∈ q.decls,
      Scope.checkDecl ⟨{ a with notes := ⟨ls ++ rs⟩, findings := fs ++ gs }, x.1.index, x.1.path⟩
        x.2 = Scope.checkDecl ⟨a, x.1.index, x.1.path⟩ x.2 := by
    intro x hx
    have hakin : Scope.Akin ⟨a, x.1.index, x.1.path⟩
        ⟨{ a with notes := ⟨ls ++ rs⟩, findings := fs ++ gs }, x.1.index, x.1.path⟩ :=
      ⟨rfl, rfl, fun _ => rfl, fun _ => rfl, hresolved⟩
    refine hakin.checkDecl_eq fun f hf => ?_
    have hne : f.node.id ≠ d.node.id := by
      intro heq
      refine h.not_mem_ids hids x hx ?_
      rw [hf, ← heq]
      simp [Decl.ids]
    simp only [Notes.isSkipped, hget _ hne]
  have hself : Scope.checkDecl ⟨a, c.index, c.path⟩ (.fnDef d) = pure () := by
    have hskip : a.notes.isSkipped d.node.id := by rw [Notes.isSkipped, hskipped]
    rw [Scope.checkDecl, Scope.checkDefinition, if_pos hskip]
    rfl
  obtain ⟨before, after, hp, hq⟩ := h.decls_eq
  rw [Analysis.checkFiles_eq q.entry.toNat, Analysis.checkFiles_eq p.entry.toNat]
  change q.decls.forM _ = p.decls.forM _
  rw [Checked.forM_congr hdecl, hp, hq]
  simp only [List.forM_eq_forM, List.forM_append, List.forM_cons, hself, pure_bind]

/-- Without a definition that repeats a name, an analysis gives the same result but for the note and
the finding on this definition, or stops with the same cause. -/
theorem analyze_eq (h : p.Without q c d) (hids : p.ids.Nodup) (hred : (c, d) ∈ p.redefinitions) :
    (∀ e, p.analyze options = .error e ↔ q.analyze options = .error e) ∧
    ∀ a, p.analyze options = .ok a → ∃ ls rs fs gs,
      a.notes.slots = ls ++ (d.node.id, .fnDef true none) :: rs ∧
      a.findings = fs ++ ⟨c.path, d.node.pos, .redefinition d.proto.name⟩ :: gs ∧
      q.analyze options = .ok { a with notes := ⟨ls ++ rs⟩, findings := fs ++ gs } := by
  have hids' := h.nodup_ids hids
  obtain ⟨s, hs⟩ := exists_signatures hids options
  obtain ⟨s', hs'⟩ := exists_signatures hids' options
  have hcheck := h.checkFiles_eq hids hred hs hs'
  refine ⟨fun e => ?_, fun a ha => ?_⟩
  · rw [analyze_eq_error_iff hids hs, analyze_eq_error_iff hids' hs', hcheck]
  · obtain ⟨_, notes, hs₁, hnotes, hok, rfl⟩ := analyze_eq_ok_iff.mp ha
    obtain rfl := Except.ok.inj (hs.symm.trans hs₁)
    obtain ⟨notes', hnotes'⟩ := recordAll_ok (signatures_ok hs').2 hids'
    obtain ⟨ls, rs, fs, gs, hslots, hfound, rfl⟩ := h.signatures hids hred hs hs'
    have hout := Analysis.outputFindings_congr h.programPlace_eq s.output
    have hq := analyze_eq_ok_iff.mpr ⟨_, notes', hs', hnotes', hcheck ▸ hok, rfl⟩
    have hslots' := Notes.slots_of_recordAll hnotes'
    rw [hcheck, ← List.append_assoc] at hslots'
    refine ⟨(s.checkFiles 0 p.files).notes.reverse ++ ls, rs, fs,
      gs ++ (s.checkFiles 0 p.files).findings ++ Analysis.outputFindings p s.output, ?_, ?_, ?_⟩
    · rw [Notes.slots_of_recordAll hnotes, hslots, List.append_assoc]
    · simp [hfound]
    · rw [hq, hcheck, hout, ← hslots']
      simp

end Without

end Program

end Sema
