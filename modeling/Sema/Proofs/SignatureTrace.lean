import Sema.Proofs.Interface
import Sema.Proofs.Nodes

/-!
What is found in the signatures of a program, told file by file and declaration by declaration. A
declaration is to blame for all that is found while it is read: it is found in the file of the
declaration, at one of its nodes.
-/

namespace Sema

/-! ### Places -/

/-- Whether a finding is in a file, at one of some nodes. -/
def Finding.At (path : String) (sites : List Node) (f : Finding) : Prop :=
  f.file = path ∧ f.pos ∈ sites.map Node.pos

theorem Finding.At.mono {path : String} {sites sites' : List Node} {f : Finding}
    (h : f.At path sites) (hs : sites ⊆ sites') : f.At path sites' :=
  ⟨h.1, List.map_subset _ hs h.2⟩

theorem Finding.at_of_mem {path : String} {sites : List Node} {n : Node} (issue : Issue)
    (hn : n ∈ sites) : Finding.At path sites ⟨path, n.pos, issue⟩ :=
  ⟨rfl, List.mem_map_of_mem hn⟩

/-- The directives and the written types of a signature. -/
def Prototype.sites (p : Prototype) : List Node :=
  p.directives.map Directive.node ++ p.parts.map TypeRef.node

/-- Where something can be found while a declaration is read: at the declaration, at a directive, or at
a written type of a signature. -/
def Decl.signatureSites : Decl → List Node
  | .fnDef d => d.node :: d.proto.sites
  | .externalBlock b =>
      b.directives.map Directive.node ++ b.functions.flatMap (·.proto.sites)
  | .rootExport e => e.directives.map Directive.node ++ [e.node]
  | .use _ => []

theorem Prototype.sites_subset (p : Prototype) : p.sites ⊆ p.nodes := by
  intro n hn
  simp only [sites, List.mem_append, parts, types, List.flatMap_append, List.map_append] at hn
  simp only [nodes, List.mem_append]
  rcases hn with hn | hn | hn
  · exact .inl (.inl hn)
  · rw [List.flatMap_map, List.map_flatMap] at hn
    obtain ⟨q, hq, hn⟩ := List.mem_flatMap.mp hn
    exact .inl (.inr (.inl (List.mem_flatMap.mpr ⟨q, hq, List.mem_append_left _ hn⟩)))
  · rw [List.flatMap_singleton] at hn
    exact .inl (.inr (.inr hn))

theorem Decl.signatureSites_subset (d : Decl) : d.signatureSites ⊆ d.nodes := by
  intro n hn
  cases d with
  | fnDef d =>
    simp only [nodes, List.mem_append, List.mem_singleton]
    rcases List.mem_cons.mp hn with rfl | hn
    · exact .inr rfl
    · exact .inl (.inl (d.proto.sites_subset hn))
  | externalBlock b =>
    simp only [nodes, List.mem_append]
    rcases List.mem_append.mp hn with hn | hn
    · exact .inl (.inl hn)
    · obtain ⟨f, hf, hn⟩ := List.mem_flatMap.mp hn
      exact .inl (.inr (List.mem_flatMap.mpr
        ⟨f, hf, List.mem_append_left _ (f.proto.sites_subset hn)⟩))
  | rootExport e => exact hn
  | use u => cases hn

/-! ### Reading finds at the nodes read -/

namespace Analysis

/-- Whether findings are only added, each in a file at one of some nodes. -/
def FindsAt (path : String) (sites : List Node) (a b : Analysis) : Prop :=
  ∃ l, b.findings = a.findings ++ l ∧ ∀ f ∈ l, f.At path sites

namespace FindsAt

variable {path : String} {sites sites' : List Node} {a b c : Analysis}

theorem of_eq (h : b.findings = a.findings) : FindsAt path sites a b :=
  ⟨[], by rw [h, List.append_nil], fun _ hf => absurd hf List.not_mem_nil⟩

theorem trans (h : FindsAt path sites a b) (h' : FindsAt path sites b c) :
    FindsAt path sites a c := by
  obtain ⟨l, hb, hl⟩ := h
  obtain ⟨m, hc, hm⟩ := h'
  exact ⟨l ++ m, by rw [hc, hb, List.append_assoc], List.forall_mem_append.mpr ⟨hl, hm⟩⟩

theorem mono (h : FindsAt path sites a b) (hs : sites ⊆ sites') : FindsAt path sites' a b := by
  obtain ⟨l, hb, hl⟩ := h
  exact ⟨l, hb, fun f hf => (hl f hf).mono hs⟩

theorem report (a : Analysis) {n : Node} (hn : n ∈ sites) (issue : Issue) :
    FindsAt path sites a (a.report path n.pos issue) :=
  ⟨_, rfl, List.forall_mem_singleton.mpr (Finding.at_of_mem issue hn)⟩

theorem record {n : NodeId} {x : Note} (h : a.record n x = .ok b) : FindsAt path sites a b := by
  obtain ⟨u, -, rfl⟩ := record_eq_ok.mp h
  exact .of_eq rfl

/-- A run over a list finds at the nodes of its items. -/
theorem foldlM {σ α : Type} (view : σ → Analysis) {f : σ → α → Except AnalysisError σ}
    {g : α → List Node} (hf : ∀ x s s', f s x = .ok s' → FindsAt path (g x) (view s) (view s'))
    {l : List α} {s s' : σ} (h : l.foldlM f s = .ok s') :
    FindsAt path (l.flatMap g) (view s) (view s') :=
  foldlM_ok (fun done t => FindsAt path (done.flatMap g) (view s) (view t))
    (fun done x t u ht hu => by
      rw [List.flatMap_append, List.flatMap_singleton]
      exact (ht.mono (List.subset_append_left _ _)).trans
        ((hf x t u hu).mono (List.subset_append_right _ _)))
    l [] s s' (.of_eq rfl) h

end FindsAt

theorem findings_pointerTo {a b : Analysis} {m : Mutability} {child i : TypeId}
    (h : a.pointerTo m child = .ok (i, b)) : b.findings = a.findings := by
  unfold pointerTo at h
  split at h
  · cases h
    rfl
  · cases h

theorem findsAt_typeNamed (path : String) (a : Analysis) (n : Node) (name : String) :
    FindsAt path [n] a (a.typeNamed path n.pos name).2 := by
  unfold typeNamed
  cases a.types.lookup? name with
  | some i => exact .of_eq rfl
  | none => exact .report a (List.mem_singleton_self n) _

theorem findsAt_resolveType {path : String} {t : TypeRef} {a b : Analysis} {i : TypeId}
    (h : a.resolveType path t = .ok (i, b)) : FindsAt path (t.parts.map TypeRef.node) a b := by
  induction t generalizing a b i with
  | named n name =>
    simp only [resolveType, bind_eq_ok_iff, pure_eq_ok_iff, Prod.mk.injEq] at h
    obtain ⟨c, hc, -, rfl⟩ := h
    exact (findsAt_typeNamed path a n name).trans (.record hc)
  | pointer n m child ih =>
    rw [resolveType_pointer] at h
    split at h
    · cases h
    · simp only [bind_eq_ok_iff, pure_eq_ok_iff, Prod.mk.injEq] at h
      obtain ⟨⟨j, a1⟩, hchild, ⟨k, a2⟩, hpointer, c, hc, -, rfl⟩ := h
      rw [TypeRef.parts, List.map_append, List.map_singleton]
      have hpointee : FindsAt path [n] a1 (a1.checkPointee path n.pos j) := by
        unfold checkPointee
        split
        · exact .report a1 (List.mem_singleton_self n) _
        · exact .of_eq rfl
      exact ((ih hchild).mono (List.subset_append_left _ _)).trans
        ((hpointee.mono (List.subset_append_right _ _)).trans
          (FindsAt.trans (.of_eq (findings_pointerTo hpointer)) (.record hc)))

theorem findsAt_resolvePrototype {path : String} {p : Prototype} {a b : Analysis}
    (h : a.resolvePrototype path p = .ok b) : FindsAt path p.sites a b := by
  rw [resolvePrototype_eq] at h
  have hdirectives : FindsAt path (p.directives.map Directive.node) a
      { a with findings := a.findings ++ p.directives.map (Directive.refusal path) } := by
    refine ⟨_, rfl, List.forall_mem_map.mpr fun d hd => ?_⟩
    exact Finding.at_of_mem _ (List.mem_map_of_mem hd)
  have htypes := FindsAt.foldlM id (g := fun t => t.parts.map TypeRef.node) (fun t a b ht => by
    simp only [bind_eq_ok_iff, pure_eq_ok_iff] at ht
    obtain ⟨⟨i, c⟩, hc, rfl⟩ := ht
    exact findsAt_resolveType hc) h
  rw [← List.map_flatMap] at htypes
  exact (hdirectives.mono (List.subset_append_left _ _)).trans
    (htypes.mono (List.subset_append_right _ _))

end Analysis

/-! ### Declarations -/

/-- What reading finds in a declaration: it is found at its nodes, and it is known but for the types
of names that look like pointers. -/
structure Reading.Yields (r : Reading) (found : List Finding) : Prop where
  located : ∀ f ∈ found, f.At r.context.path r.decl.signatureSites
  plain : r.IsPlain → found = r.findings
  others : found.filter (!·.ofType) = r.findings.filter (!·.ofType)

theorem Directive.at_versionFindings {path : String} {sites : List Node} {d : Directive}
    (hd : d.node ∈ sites) : ∀ f ∈ d.versionFindings path, f.At path sites := by
  unfold versionFindings
  split
  · split
    · exact fun _ hf => absurd hf List.not_mem_nil
    · exact List.forall_mem_singleton.mpr (Finding.at_of_mem _ hd)
  · exact List.forall_mem_singleton.mpr (Finding.at_of_mem _ hd)

theorem RootExport.at_kindFindings {path : String} {sites : List Node} {e : RootExport}
    (he : e.node ∈ sites) : ∀ f ∈ e.kindFindings path, f.At path sites := by
  unfold kindFindings
  split
  · exact fun _ hf => absurd hf List.not_mem_nil
  · exact List.forall_mem_singleton.mpr (Finding.at_of_mem _ he)

theorem Reading.at_findings_rootExport {r : Reading} {e : RootExport}
    (hd : r.decl = .rootExport e) :
    ∀ f ∈ r.findings, f.At r.context.path (Decl.rootExport e).signatureSites := by
  have hself : e.node ∈ (Decl.rootExport e).signatureSites :=
    List.mem_append_right _ (List.mem_singleton_self _)
  rw [findings_rootExport hd]
  split
  · refine List.forall_mem_append.mpr ⟨fun f hf => ?_, ?_⟩
    · obtain ⟨d, hmem, hf⟩ := List.mem_flatMap.mp hf
      exact d.at_versionFindings (List.mem_append_left _ (List.mem_map_of_mem hmem)) f hf
    · split
      · exact List.forall_mem_singleton.mpr (Finding.at_of_mem _ hself)
      · exact e.at_kindFindings hself
  · exact List.forall_mem_singleton.mpr (Finding.at_of_mem _ hself)

namespace FileScan

theorem findsAt_readExternal {c : FileContext} {f : ExternalFn} {s s' : FileScan}
    (h : readExternal c s f = .ok s') :
    Analysis.FindsAt c.path f.proto.sites s.analysis s'.analysis := by
  simp only [readExternal, bind_eq_ok_iff, pure_eq_ok_iff] at h
  obtain ⟨a, ha, rfl⟩ := h
  exact (Analysis.findsAt_resolvePrototype ha).trans (.of_eq rfl)

theorem findsAt_readDecl {c : FileContext} {s s' : FileScan} {d : Decl}
    (h : readDecl c s d = .ok s') :
    Analysis.FindsAt c.path d.signatureSites s.analysis s'.analysis := by
  cases d with
  | fnDef d =>
    rw [readDecl, readDefinition] at h
    split at h
    · simp only [bind_eq_ok_iff, pure_eq_ok_iff] at h
      obtain ⟨a, ha, rfl⟩ := h
      exact (Analysis.FindsAt.report _ (List.mem_cons_self ..) _).trans (.record ha)
    · simp only [bind_eq_ok_iff, pure_eq_ok_iff] at h
      obtain ⟨a, ha, rfl⟩ := h
      exact (Analysis.findsAt_resolvePrototype ha).mono (List.subset_cons_self _ _)
  | externalBlock b =>
    rw [readDecl, readExternalBlock, foldl_readLink] at h
    have hfns := Analysis.FindsAt.foldlM FileScan.analysis
      (fun f _ _ => findsAt_readExternal (f := f)) h
    refine Analysis.FindsAt.trans ⟨_, rfl, List.forall_mem_map.mpr fun d hd => ?_⟩
      (hfns.mono (List.subset_append_right _ _))
    exact Finding.at_of_mem _
      (List.mem_append_left _ (List.mem_map_of_mem (List.mem_of_mem_filter hd)))
  | rootExport e =>
    rw [readDecl, pure_eq_ok_iff, readRootExport_eq] at h
    subst h
    exact ⟨_, rfl, Reading.at_findings_rootExport rfl⟩
  | use u =>
    rw [readDecl, pure_eq_ok_iff] at h
    subst h
    exact .of_eq rfl

/-- What is added by reading a declaration is what the declaration yields. -/
theorem yields_readDecl {c : FileContext} {s s' : FileScan} {d : Decl} (hs : s.Sound c.index)
    (h : readDecl c s d = .ok s') : ∃ l, s'.analysis.findings = s.analysis.findings ++ l ∧
      (s.reading c d).Yields l := by
  obtain ⟨l, hl, hat⟩ := findsAt_readDecl h
  obtain ⟨gs, hgs, hplain, hothers⟩ := (readDecl_steps hs h).2.grows.findings
  obtain rfl : gs = l := List.append_cancel_left (hgs.symm.trans hl)
  exact ⟨gs, hl, hat, hplain, hothers⟩

/-- What is found while declarations are read, declaration by declaration. -/
def found (c : FileContext) (s : FileScan) : List Decl → List (List Finding)
  | [] => []
  | d :: rest =>
      match readDecl c s d with
      | .ok s' => s'.analysis.findings.drop s.analysis.findings.length :: found c s' rest
      | .error _ => []

theorem yields_found {c : FileContext} : ∀ {ds : List Decl} {s s' : FileScan}, s.Sound c.index →
    ds.foldlM (readDecl c) s = .ok s' →
      s'.analysis.findings = s.analysis.findings ++ (found c s ds).flatten ∧
      (s.analysis.meets (ds.map (c, ·))).Forall₂ Reading.Yields (found c s ds)
  | [], s, s', _, h => by
    obtain rfl := pure_eq_ok_iff.mp h
    exact ⟨(List.append_nil _).symm, .nil⟩
  | d :: ds, s, s', hs, h => by
    rw [List.foldlM_cons, bind_eq_ok_iff] at h
    obtain ⟨s1, h1, h⟩ := h
    obtain ⟨l, hl, hyields⟩ := yields_readDecl hs h1
    obtain ⟨hs1, hsteps⟩ := readDecl_steps hs h1
    obtain ⟨hfindings, hrest⟩ := yields_found hs1 h
    have hfound : found c s (d :: ds) = l :: found c s1 ds := by
      simp only [found, h1, hl, List.drop_left]
    have hruns : s.analysis.Runs (s.analysis.meets [(c, d)]) s1.analysis := .of_steps hsteps
    have hmeets : s.analysis.meets ((d :: ds).map (c, ·)) =
        s.reading c d :: s1.analysis.meets (ds.map (c, ·)) := hruns.meets_append _
    rw [hfound, hmeets]
    refine ⟨?_, .cons hyields hrest⟩
    rw [hfindings, hl, List.flatten_cons, List.append_assoc]

end FileScan

/-! ### Files -/

namespace Program

variable {p : Program} {options : BuildOptions}

/-- What is found in the signatures of a file, declaration by declaration. -/
def signatureTrace (p : Program) (options : BuildOptions) (i : Nat) : List (List Finding) :=
  match p.signaturesTo options i, p.files[i]? with
  | .ok a, some f => FileScan.found ⟨i, f.path, i == p.entry.toNat⟩ ⟨a, .empty⟩ f.decls
  | _, _ => []

theorem signatureTrace_eq {a : Analysis} {i : Nat} {f : SourceFile}
    (ha : p.signaturesTo options i = .ok a) (hf : p.files[i]? = some f) :
    p.signatureTrace options i =
      FileScan.found ⟨i, f.path, i == p.entry.toNat⟩ ⟨a, .empty⟩ f.decls := by
  rw [signatureTrace, ha, hf]

theorem signaturesTo_succ (options : BuildOptions) {i : Nat} {f : SourceFile}
    (hf : p.files[i]? = some f) : p.signaturesTo options (i + 1) =
      p.signaturesTo options i >>= fun a => a.readFile ⟨i, f.path, i == p.entry.toNat⟩ f := by
  have hlen : (p.files.take i).length = i := by
    have := (List.getElem?_eq_some_iff.mp hf).1
    rw [List.length_take]
    omega
  rw [signaturesTo, signaturesTo, List.take_add_one, hf, Option.toList_some,
    Analysis.readFiles_append, hlen, Nat.zero_add]
  exact bind_congr fun a => bind_pure _

theorem signaturesTo_length (p : Program) (options : BuildOptions) :
    p.signaturesTo options p.files.length =
      (Analysis.initial options).readFiles p.entry.toNat 0 p.files := by
  rw [signaturesTo, List.take_length]

/-- Where all signatures can be read, so can those of the files before an index. -/
theorem exists_signaturesTo {s : Analysis}
    (h : (Analysis.initial options).readFiles p.entry.toNat 0 p.files = .ok s) (i : Nat) :
    ∃ a, p.signaturesTo options i = .ok a := by
  rw [← List.take_append_drop i p.files, Analysis.readFiles_append, bind_eq_ok_iff] at h
  obtain ⟨a, ha, -⟩ := h
  exact ⟨a, ha⟩

/-- A file is read with what the files before it have left. -/
theorem signaturesTo_spec {a : Analysis} {i : Nat} {f : SourceFile}
    (ha : p.signaturesTo options i = .ok a) (hf : p.files[i]? = some f) : a.Filed i ∧
      a.meets (f.decls.map (⟨i, f.path, i == p.entry.toNat⟩, ·)) = p.readingsIn i := by
  obtain ⟨hfiled, hruns⟩ := signatures_ok (p := p.upTo i) ha
  have hlen : (p.upTo i).files.length = i := by
    have := (List.getElem?_eq_some_iff.mp hf).1
    rw [upTo, List.length_take]
    omega
  rw [hlen] at hfiled
  refine ⟨hfiled, ?_⟩
  rw [readingsIn_eq (getElem?_marked_of_files hf), Analysis.meets, hruns.functions, hruns.output,
    Analysis.isSome_decl_outputAfter]
  rfl

/-- What the signatures of a file yield. -/
theorem yields_signatureTrace {s : Analysis}
    (h : (Analysis.initial options).readFiles p.entry.toNat 0 p.files = .ok s) (i : Nat) :
    (p.readingsIn i).Forall₂ Reading.Yields (p.signatureTrace options i) := by
  obtain ⟨a, ha⟩ := exists_signaturesTo h i
  obtain ⟨b, hb⟩ := exists_signaturesTo h (i + 1)
  cases hf : p.files[i]? with
  | none =>
    rw [readingsIn, getElem?_marked, signatureTrace, ha, hf]
    exact .nil
  | some f =>
    rw [signaturesTo_succ options hf, ha] at hb
    change a.readFile _ f = .ok b at hb
    obtain ⟨t, ht, -⟩ := bind_eq_ok_iff.mp hb
    obtain ⟨hfiled, hmeets⟩ := signaturesTo_spec ha hf
    rw [signatureTrace_eq ha hf, ← hmeets]
    exact (FileScan.yields_found (c := ⟨i, f.path, i == p.entry.toNat⟩) hfiled.beginFile ht).2

/-- What is found in the files before an index is what is found in each of them, in order. -/
theorem findings_signaturesTo : ∀ (i : Nat) {a : Analysis}, p.signaturesTo options i = .ok a →
    a.findings = (List.range i).flatMap fun j => (p.signatureTrace options j).flatten
  | 0, a, h => by
    rw [signaturesTo, List.take_zero, Analysis.readFiles, Except.ok.injEq] at h
    subst h
    rfl
  | i + 1, b, h => by
    rw [List.range_succ, List.flatMap_append, List.flatMap_singleton]
    cases hf : p.files[i]? with
    | none =>
      have hsame : p.signaturesTo options (i + 1) = p.signaturesTo options i := by
        rw [signaturesTo, signaturesTo, List.take_add_one, hf, Option.toList_none, List.append_nil]
      rw [hsame] at h
      rw [findings_signaturesTo i h, signatureTrace, h, hf, List.flatten_nil, List.append_nil]
    | some f =>
      rw [signaturesTo_succ options hf, bind_eq_ok_iff] at h
      obtain ⟨a, ha, h⟩ := h
      obtain ⟨hfiled, -⟩ := signaturesTo_spec ha hf
      simp only [Analysis.readFile, bind_eq_ok_iff, pure_eq_ok_iff] at h
      obtain ⟨t, ht, rfl⟩ := h
      rw [signatureTrace_eq ha hf, ← findings_signaturesTo i ha]
      exact (FileScan.yields_found (c := ⟨i, f.path, i == p.entry.toNat⟩) hfiled.beginFile ht).1

end Program

end Sema
