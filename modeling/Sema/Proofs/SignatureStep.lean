import Sema.Proofs.Reading
import Sema.Proofs.TextOrder

/-!
What the reading of one declaration does to an analysis: its functions are added and bound, its notes
and findings go to the end, and what was there stays.
-/

namespace Sema

/-- What holds of an analysis between two declarations. -/
structure Analysis.Sound (a : Analysis) : Prop where
  types : a.types.WellFormed
  valid : a.NotesValid
  distinct : a.notes.Distinct
  resolved : ∀ f ∈ a.functions, ∀ t ∈ f.proto.parts, a.Resolves t
  globals : ∀ name, a.globals.get? name = Function.latest (Function.isShared name) a.functions
  definitions : a.definitionIds = Function.handles (·.definition.isSome) a.functions
  /-- There is a pointer to the invalid type only where a signature asks for one. -/
  blamed : a.types.PointsToInvalid → ∃ f ∈ a.functions, a.Blames f.proto.parts

/-- What holds of an analysis in the middle of a file. -/
structure FileScan.Sound (i : Nat) (s : FileScan) : Prop where
  analysis : s.analysis.Sound
  own : ∀ name, s.own.get? name = Function.latest (Function.isOwn i name) s.analysis.functions

/-- How an analysis grows: by functions, by notes, and by findings if names are plain. -/
structure Analysis.Grows (fs : List Function) (ns : List (NodeId × NoteKind)) (plain : Prop)
    (found : List Finding) (a b : Analysis) : Prop where
  within : a.Within b
  functions : b.functions = a.functions ++ fs
  written : b.notes.written = a.notes.written ++ ns
  findings : Finds plain found a.findings b.findings
  locals : b.locals = a.locals

namespace Analysis.Grows

variable {fs gs : List Function} {ns ms : List (NodeId × NoteKind)} {plain plain' : Prop}
  {found found' : List Finding} {a b c : Analysis}

theorem refl (a : Analysis) : Grows [] [] plain [] a a :=
  ⟨.refl a, by simp, by simp, .refl _, rfl⟩

theorem trans (h : Grows fs ns plain found a b) (h' : Grows gs ms plain' found' b c) :
    Grows (fs ++ gs) (ns ++ ms) (plain ∧ plain') (found ++ found') a c where
  within := h.within.trans h'.within
  functions := by rw [h'.functions, h.functions, List.append_assoc]
  written := by rw [h'.written, h.written, List.append_assoc]
  findings := h.findings.trans h'.findings
  locals := h'.locals.trans h.locals

theorem congr (h : Grows fs ns plain found a b) (hp : plain' → plain) (hf : found = found') :
    Grows fs ns plain' found' a b :=
  { h with findings := h.findings.congr hp hf }

end Analysis.Grows

theorem Analysis.Grows.frame {plain : Prop} (a : Analysis) (found : List Finding) (ls : List String)
    (o : Output) : Grows [] [] plain found a
      { a with findings := a.findings ++ found, libraries := ls, output := o } :=
  ⟨⟨List.prefix_refl _, .refl _⟩, by simp, by simp, .append _ _, rfl⟩

/-! ### A function is added -/

namespace FileScan

/-- Binding a function touches neither types nor notes nor findings. -/
theorem bind_frame (s : FileScan) (f : Function) (t : TypeTable) (n : Notes) (fs : List Finding) :
    bind ⟨{ s.analysis with types := t, notes := n, findings := fs }, s.own⟩ f =
      ⟨{ (s.bind f).analysis with types := t, notes := n, findings := fs }, (s.bind f).own⟩ := rfl

theorem get?_globals_bind (s : FileScan) (f : Function) (name : String) :
    (s.bind f).analysis.globals.get? name =
      if f.isShared name then some ⟨s.analysis.functions.length⟩
      else s.analysis.globals.get? name := by
  unfold bind Analysis.addFunction Function.isShared
  by_cases hv : f.proto.visibility = .shared
  · simp [hv, Bindings.get?_insert, eq_comm]
  · simp [hv]

theorem get?_own_bind (s : FileScan) (f : Function) (name : String) {i : Nat} (hf : f.file = i) :
    (s.bind f).own.get? name =
      if f.isOwn i name then some ⟨s.analysis.functions.length⟩ else s.own.get? name := by
  unfold bind Analysis.addFunction Function.isOwn
  simp [hf, Bindings.get?_insert, eq_comm]

theorem definitionIds_bind (s : FileScan) (f : Function) : (s.bind f).analysis.definitionIds =
    if f.definition.isSome then
      s.analysis.definitionIds ++ [⟨s.analysis.functions.length⟩]
    else s.analysis.definitionIds := rfl

/-- Whether `s'` is `s` with a function added whose signature was resolved. -/
def Adds (path : String) (s : FileScan) (f : Function) (s' : FileScan) : Prop :=
  ∃ a, Analysis.Reads f.proto.parts f.proto.IsPlain (f.proto.findings path) s.analysis a ∧
    s' = bind ⟨a, s.own⟩ f

namespace Adds

variable {path : String} {s s' : FileScan} {f : Function}

theorem grows (h : s.Adds path f s') : Analysis.Grows [f] (f.proto.parts.map TypeRef.noted)
    f.proto.IsPlain (f.proto.findings path) s.analysis s'.analysis := by
  obtain ⟨a, hr, rfl⟩ := h
  have hrest := hr.rest
  refine ⟨⟨hr.within.types, hr.within.notes⟩, ?_, hr.written, hr.findings, ?_⟩
  · rw [hrest]
    rfl
  · rw [hrest]
    rfl

theorem output (h : s.Adds path f s') : s'.analysis.output = s.analysis.output := by
  obtain ⟨a, hr, rfl⟩ := h
  rw [hr.rest]
  rfl

theorem libraries (h : s.Adds path f s') : s'.analysis.libraries = s.analysis.libraries := by
  obtain ⟨a, hr, rfl⟩ := h
  rw [hr.rest]
  rfl

theorem sound {i : Nat} (h : s.Adds path f s') (hs : s.Sound i) (hf : f.file = i) : s'.Sound i := by
  have hg := h.grows
  obtain ⟨a, hr, rfl⟩ := h
  have hfun : a.functions = s.analysis.functions := by rw [hr.rest]
  have hglob : a.globals = s.analysis.globals := by rw [hr.rest]
  have hdefs : a.definitionIds = s.analysis.definitionIds := by rw [hr.rest]
  refine ⟨⟨hr.types, hr.valid hs.analysis.valid, hr.distinct hs.analysis.distinct, ?_, ?_, ?_, ?_⟩,
    ?_⟩
  · intro g hgm t ht
    rw [hg.functions, List.mem_append, List.mem_singleton] at hgm
    rcases hgm with hgm | rfl
    · exact (hs.analysis.resolved g hgm t ht).mono hg.within
    · exact hr.resolved t ht
  · intro name
    rw [hg.functions, Function.latest_append, ← hs.analysis.globals name, get?_globals_bind, hfun,
      hglob]
  · rw [hg.functions, Function.handles_append, ← hs.analysis.definitions, definitionIds_bind, hfun,
      hdefs]
  · intro hinv
    rw [hg.functions]
    rcases hr.blamed hinv with hold | hnew
    · obtain ⟨g, hgm, hgb⟩ := hs.analysis.blamed hold
      exact ⟨g, List.mem_append_left _ hgm, hgb.mono (List.Subset.refl _) hg.findings.subset⟩
    · exact ⟨f, List.mem_append_right _ (List.mem_singleton_self f), hnew⟩
  · intro name
    rw [hg.functions, Function.latest_append, ← hs.own name, get?_own_bind _ _ _ hf, hfun]

end Adds

/-! ### Definitions -/

/-- The reading of a declaration in the state in which it is met. -/
def reading (s : FileScan) (c : FileContext) (d : Decl) : Reading :=
  ⟨s.analysis.functions, s.analysis.output.decl.isSome, c, d⟩

/-- What the reading of a declaration does. -/
structure Steps (r : Reading) (s s' : FileScan) : Prop where
  grows : Analysis.Grows r.functions r.noted r.IsPlain r.findings s.analysis s'.analysis
  output : s'.analysis.output = (r.honors.map s.analysis.output.honor).getD s.analysis.output
  libraries : s'.analysis.libraries = Text.insertAll r.decl.links s.analysis.libraries
  skipped : ∀ d ∈ r.redefined, s'.analysis.notes.get? d.node.id = some (.fnDef true none)

/-- The tables know the names that are taken. -/
theorem repeats_fnDef {c : FileContext} {s : FileScan} (hs : s.Sound c.index) (d : FnDef) :
    (s.reading c (.fnDef d)).repeats (.defined d.proto d.node.id c.index) =
      s.isRedefinition d.proto := by
  rw [Bool.eq_iff_iff, isRedefinition, Bindings.contains, Bindings.contains, hs.own,
    hs.analysis.globals, Reading.repeats, reading]
  simp only [Bool.or_eq_true, Bool.and_eq_true, decide_eq_true_eq, Function.isSome_latest_iff,
    List.any_eq_true, Function.isOwn, Function.isShared]
  simp only [Function.Clashes, Function.defined]
  constructor
  · rintro ⟨f, hf, -, hname, hfile | ⟨hv, hp⟩⟩
    · exact .inl ⟨f, hf, hfile, hname⟩
    · exact .inr ⟨hp, f, hf, hv, hname⟩
  · rintro (⟨f, hf, hfile, hname⟩ | ⟨hp, f, hf, hv, hname⟩)
    · exact ⟨f, hf, rfl, hname, .inl hfile⟩
    · exact ⟨f, hf, rfl, hname, .inr ⟨hv, hp⟩⟩

/-- The notes that a definition writes. -/
theorem noted_fnDef {c : FileContext} {s : FileScan} (hs : s.Sound c.index) (d : FnDef) :
    (s.reading c (.fnDef d)).noted = if s.isRedefinition d.proto then [(d.node.id, .fnDef true)]
      else d.proto.parts.map TypeRef.noted := by
  have hd : (s.reading c (.fnDef d)).decl = .fnDef d := rfl
  have hc : (s.reading c (.fnDef d)).context = c := rfl
  rw [Reading.noted, Reading.functions_fnDef hd, Reading.redefined_fnDef hd, hc, repeats_fnDef hs]
  cases s.isRedefinition d.proto
  · simp only [Bool.false_eq_true, if_false, List.flatMap_singleton, List.map_nil, List.append_nil]
    rfl
  · rfl

/-- What does not touch functions and notes keeps an analysis sound. -/
theorem Sound.frame {i : Nat} {s : FileScan} (hs : s.Sound i) (fs : List Finding)
    (ls : List String) (o : Output) :
    Sound i ⟨{ s.analysis with
      findings := s.analysis.findings ++ fs, libraries := ls, output := o }, s.own⟩ := by
  refine ⟨⟨hs.analysis.types, hs.analysis.valid.report fs, hs.analysis.distinct,
    hs.analysis.resolved, hs.analysis.globals, hs.analysis.definitions, fun hinv => ?_⟩, hs.own⟩
  obtain ⟨f, hf, hb⟩ := hs.analysis.blamed hinv
  exact ⟨f, hf, hb.mono (List.Subset.refl _) (List.subset_append_left _ _)⟩

/-- A definition is either added like any function or left out with a note. -/
theorem readDefinition_cases {c : FileContext} {s s' : FileScan} {d : FnDef}
    (hs : s.Sound c.index) (h : readDefinition c s d = .ok s') :
    (¬ s.isRedefinition d.proto ∧ s.Adds c.path (.defined d.proto d.node.id c.index) s') ∨
    (s.isRedefinition d.proto ∧ ∃ u, s.analysis.notes.record d.node.id (.fnDef true none) = .ok u ∧
      s' = ⟨{ s.analysis with notes := u, findings := s.analysis.findings ++
        [⟨c.path, d.node.pos, .redefinition d.proto.name⟩] }, s.own⟩) := by
  unfold readDefinition at h
  split at h
  · next hr =>
    simp only [bind_eq_ok_iff, pure_eq_ok_iff, Analysis.record_eq_ok] at h
    obtain ⟨a, ⟨u, hu, rfl⟩, rfl⟩ := h
    exact .inr ⟨hr, u, hu, rfl⟩
  · next hr =>
    simp only [bind_eq_ok_iff, pure_eq_ok_iff] at h
    obtain ⟨a, ha, rfl⟩ := h
    have ht : (s.bind (.defined d.proto d.node.id c.index)).analysis.types.WellFormed :=
      hs.analysis.types
    have hread := Analysis.resolvePrototype_reads ht ha
    -- binding first or last makes no difference
    refine .inl ⟨hr, _, hread.transport s.analysis rfl rfl rfl, ?_⟩
    exact (congrArg (FileScan.mk · _) hread.rest).trans (bind_frame s _ _ _ _).symm

theorem readDefinition_steps {c : FileContext} {s s' : FileScan} {d : FnDef}
    (hs : s.Sound c.index) (h : readDefinition c s d = .ok s') :
    s'.Sound c.index ∧ Steps (s.reading c (.fnDef d)) s s' := by
  have hd : (s.reading c (.fnDef d)).decl = .fnDef d := rfl
  have hc : (s.reading c (.fnDef d)).context = c := rfl
  have hn := noted_fnDef hs d
  have hf := Reading.functions_fnDef hd
  have hr := Reading.redefined_fnDef hd
  have hi := Reading.findings_fnDef hd
  rw [hc, repeats_fnDef hs] at hf hr hi
  rcases readDefinition_cases hs h with ⟨hnew, hadd⟩ | ⟨hold, u, hu, rfl⟩
  · rw [if_neg hnew] at hn hf hr hi
    refine ⟨hadd.sound hs rfl, ?_, hadd.output, hadd.libraries, by simp [hr]⟩
    rw [hf, hi, hn]
    refine hadd.grows.congr (fun hp => hp _ ?_) rfl
    rw [hf]
    exact List.mem_singleton_self _
  · rw [if_pos hold] at hn hf hr hi
    have hrec := Notes.recorded hu
    refine ⟨⟨⟨hs.analysis.types, ?_, hrec.distinct hs.analysis.distinct,
      fun f hf t ht => (hs.analysis.resolved f hf t ht).mono ⟨List.prefix_refl _, hrec.within⟩,
      hs.analysis.globals, hs.analysis.definitions, (hs.frame _ [] s.analysis.output).analysis.blamed⟩,
      hs.own⟩,
      ⟨⟨List.prefix_refl _, hrec.within⟩, ?_, ?_, ?_, rfl⟩, rfl, rfl, ?_⟩
    · intro n x hx i hi
      simp only [hrec.get?] at hx
      split at hx
      · obtain rfl := Option.some.inj hx
        simp [Note.types] at hi
      · exact (hs.analysis.valid.report _) n x hx i hi
    · rw [hf, List.append_nil]
    · rw [hn]
      exact hrec.written
    · rw [hi]
      exact .append _ _
    · rw [hr]
      intro d' hd'
      rw [List.mem_singleton] at hd'
      subst hd'
      simp only [hrec.get?, if_pos]

theorem readDefinition_error {c : FileContext} {s : FileScan} {d : FnDef} {e : AnalysisError}
    (hs : s.Sound c.index) (h : readDefinition c s d = .error e) :
    (∃ n, e = .alreadyAnnotated n) ∧
      ¬ s.analysis.notes.Clear (s.reading c (.fnDef d)).noted := by
  rw [noted_fnDef hs]
  unfold readDefinition at h
  split at h
  · next hr =>
    rw [if_pos hr]
    simp only [bind_eq_error_iff, pure, Except.pure, reduceCtorEq, and_false, exists_false,
      or_false] at h
    obtain ⟨rfl, hmem⟩ := Analysis.record_eq_error h
    refine ⟨⟨_, rfl⟩, fun hclear => ?_⟩
    have hv := Notes.Clear.vacant (l := []) hclear
    rw [List.append_nil] at hv
    exact hv hmem
  · next hr =>
    rw [if_neg hr]
    simp only [bind_eq_error_iff, pure, Except.pure, reduceCtorEq, and_false, exists_false,
      or_false] at h
    have herr := Analysis.resolvePrototype_error (by exact hs.analysis.types) h
    exact herr

/-! ### External blocks -/

/-- The directives of an external block change nothing but libraries and findings. -/
theorem foldl_readLink (path : String) (ds : List Directive) (a : Analysis) :
    ds.foldl (readLink path) a = { a with
      libraries := Text.insertAll ((ds.filter (·.name = "link")).map (·.param)) a.libraries
      findings := a.findings ++ (ds.filter (·.name ≠ "link")).map (Directive.refusal path) } := by
  induction ds generalizing a with
  | nil => simp [Text.insertAll]
  | cons d ds ih =>
    rw [List.foldl_cons, ih, readLink]
    by_cases hd : d.name = "link"
    · simp [hd, Text.insertAll]
    · simp [hd, Analysis.reportDirective, Analysis.report, Directive.refusal]

/-- What holds in the middle of an external block, after the functions `done`. -/
structure InBlock (c : FileContext) (b : ExternalBlock) (s : FileScan) (done : List ExternalFn)
    (s' : FileScan) : Prop where
  sound : s'.Sound c.index
  grows : Analysis.Grows (done.map fun f => .declared f.proto c.index)
    (done.flatMap (·.proto.parts.map TypeRef.noted)) (∀ f ∈ done, f.proto.IsPlain)
    ((b.directives.filter (·.name ≠ "link")).map (Directive.refusal c.path) ++
      done.flatMap (·.proto.findings c.path)) s.analysis s'.analysis
  output : s'.analysis.output = s.analysis.output
  libraries : s'.analysis.libraries =
    Text.insertAll (Decl.externalBlock b).links s.analysis.libraries

theorem InBlock.nil {c : FileContext} (b : ExternalBlock) {s : FileScan} (hs : s.Sound c.index) :
    InBlock c b s [] ⟨b.directives.foldl (readLink c.path) s.analysis, s.own⟩ := by
  rw [foldl_readLink]
  exact ⟨hs.frame _ _ _,
    (Analysis.Grows.frame s.analysis _ _ _).congr id (List.append_nil _).symm, rfl, rfl⟩

theorem InBlock.append {c : FileContext} {b : ExternalBlock} {s s1 s2 : FileScan}
    {done : List ExternalFn} {f : ExternalFn} (h : InBlock c b s done s1)
    (h2 : readExternal c s1 f = .ok s2) : InBlock c b s (done ++ [f]) s2 := by
  have hadd : s1.Adds c.path (.declared f.proto c.index) s2 := by
    simp only [readExternal, bind_eq_ok_iff, pure_eq_ok_iff] at h2
    obtain ⟨a, ha, rfl⟩ := h2
    exact ⟨a, Analysis.resolvePrototype_reads h.sound.analysis.types ha, rfl⟩
  refine ⟨hadd.sound h.sound rfl, ?_, hadd.output.trans h.output, hadd.libraries.trans h.libraries⟩
  have hg := h.grows.trans hadd.grows
  rw [List.map_append, List.flatMap_append, List.flatMap_append, ← List.append_assoc]
  simp only [List.map_singleton, List.flatMap_singleton]
  exact hg.congr (fun hp => ⟨fun g hg => hp g (List.mem_append_left _ hg), hp f (by simp)⟩)
    rfl

/-- The notes that an external block writes. -/
theorem noted_externalBlock (s : FileScan) (c : FileContext) (b : ExternalBlock) :
    (s.reading c (.externalBlock b)).noted =
      b.functions.flatMap (·.proto.parts.map TypeRef.noted) := by
  have hd : (s.reading c (.externalBlock b)).decl = .externalBlock b := rfl
  have hnone : (s.reading c (.externalBlock b)).redefined = [] := rfl
  rw [Reading.noted, Reading.functions_externalBlock hd, hnone, List.map_nil, List.append_nil,
    List.flatMap_map]
  rfl

theorem readExternalBlock_steps {c : FileContext} {s s' : FileScan} {b : ExternalBlock}
    (hs : s.Sound c.index) (h : readExternalBlock c s b = .ok s') :
    s'.Sound c.index ∧ Steps (s.reading c (.externalBlock b)) s s' := by
  have hb := foldlM_ok (InBlock c b s) (fun _ _ _ _ => InBlock.append) b.functions [] _ s'
    (.nil b hs) h
  rw [List.nil_append] at hb
  have hd : (s.reading c (.externalBlock b)).decl = .externalBlock b := rfl
  have hf := Reading.functions_externalBlock hd
  refine ⟨hb.sound, ⟨?_, hb.output, hb.libraries, fun d hd => absurd hd List.not_mem_nil⟩⟩
  rw [hf, noted_externalBlock, Reading.findings_externalBlock hd]
  refine hb.grows.congr (fun hp f hfm => ?_) rfl
  refine hp (.declared f.proto c.index) ?_
  rw [hf]
  exact List.mem_map_of_mem hfm

theorem readExternalBlock_error {c : FileContext} {s : FileScan} {b : ExternalBlock}
    {e : AnalysisError} (hs : s.Sound c.index) (h : readExternalBlock c s b = .error e) :
    (∃ n, e = .alreadyAnnotated n) ∧
      ¬ s.analysis.notes.Clear (s.reading c (.externalBlock b)).noted := by
  obtain ⟨seen, f, rest, s1, hfs, hb, hf⟩ := foldlM_error (InBlock c b s)
    (fun _ _ _ _ => InBlock.append) b.functions [] _ (.nil b hs) h
  rw [List.nil_append] at hb
  simp only [readExternal, bind_eq_error_iff, pure, Except.pure, reduceCtorEq, and_false,
    exists_false, or_false] at hf
  obtain ⟨he, hnot⟩ := Analysis.resolvePrototype_error hb.sound.analysis.types hf
  refine ⟨he, fun hclear => hnot ?_⟩
  rw [noted_externalBlock, hfs, List.flatMap_append, List.flatMap_cons, ← List.append_assoc]
    at hclear
  have hleft := hclear.left
  rw [Notes.Clear, ← List.append_assoc] at hleft
  rwa [Notes.Clear, hb.grows.written]

/-! ### Root exports -/

theorem lastVersion?_cons (d : Directive) (ds : List Directive) : lastVersion? (d :: ds) =
    (lastVersion? ds).or (if d.name = "version" then Version.parse? d.param else none) := by
  unfold lastVersion?
  by_cases hd : d.name = "version"
  · cases hv : Version.parse? d.param with
    | none => simp [hd, hv]
    | some v => simp [hd, hv, List.getLast?_cons]
  · simp [hd]

/-- The directives of a root export change nothing but the version and findings. -/
theorem foldl_readVersion (path : String) (isFirst : Bool) (ds : List Directive) (a : Analysis) :
    ds.foldl (Analysis.readVersion path isFirst) a = { a with
      output := if isFirst then { a.output with version := (lastVersion? ds).or a.output.version }
        else a.output
      findings := a.findings ++ ds.flatMap (Directive.versionFindings path) } := by
  induction ds generalizing a with
  | nil =>
    have hnil : lastVersion? [] = none := rfl
    cases isFirst <;> simp [hnil]
  | cons d ds ih =>
    rw [List.foldl_cons, ih, Analysis.readVersion, lastVersion?_cons]
    by_cases hd : d.name = "version"
    · cases hv : Version.parse? d.param with
      | none => simp [hd, hv, Analysis.report, Directive.versionFindings]
      | some v => cases isFirst <;> simp [hd, hv, Directive.versionFindings]
    · simp [hd, Analysis.reportDirective, Analysis.report, Directive.versionFindings,
        Directive.refusal]

theorem readRootExport_eq (c : FileContext) (s : FileScan) (e : RootExport) :
    s.analysis.readRootExport c e = { s.analysis with
      output := ((s.reading c (.rootExport e)).honors.map s.analysis.output.honor).getD
        s.analysis.output
      findings := s.analysis.findings ++ (s.reading c (.rootExport e)).findings } := by
  cases hdecl : s.analysis.output.decl <;>
    simp only [Analysis.readRootExport, foldl_readVersion, reading, Reading.honors,
      Reading.findings, hdecl] <;>
    by_cases hc : c.isEntry
  · cases hk : OutputKind.ofWord? e.kind <;>
      simp [hc, Analysis.takeOutput, Analysis.report, RootExport.kindFindings, Output.honor, hk]
  · simp [hc, Analysis.report]
  · simp [hc, Analysis.report]
  · simp [hc, Analysis.report]

theorem readRootExport_steps {c : FileContext} {s : FileScan} (hs : s.Sound c.index)
    (e : RootExport) :
    Sound c.index ⟨s.analysis.readRootExport c e, s.own⟩ ∧
      Steps (s.reading c (.rootExport e)) s ⟨s.analysis.readRootExport c e, s.own⟩ := by
  rw [readRootExport_eq]
  exact ⟨hs.frame _ _ _, .frame _ _ _ _, rfl, rfl, fun d hd => absurd hd List.not_mem_nil⟩

/-! ### Any declaration -/

theorem readDecl_steps {c : FileContext} {s s' : FileScan} {d : Decl} (hs : s.Sound c.index)
    (h : readDecl c s d = .ok s') : s'.Sound c.index ∧ Steps (s.reading c d) s s' := by
  cases d with
  | fnDef d => exact readDefinition_steps hs h
  | externalBlock b => exact readExternalBlock_steps hs h
  | rootExport e =>
    rw [readDecl, pure_eq_ok_iff] at h
    subst h
    exact readRootExport_steps hs e
  | use u =>
    rw [readDecl, pure_eq_ok_iff] at h
    subst h
    exact ⟨hs, .refl _, rfl, rfl, fun d hd => absurd hd List.not_mem_nil⟩

/-- Reading stops only at a node that has a note or gets two. -/
theorem readDecl_error {c : FileContext} {s : FileScan} {d : Decl} {e : AnalysisError}
    (hs : s.Sound c.index) (h : readDecl c s d = .error e) :
    (∃ n, e = .alreadyAnnotated n) ∧ ¬ s.analysis.notes.Clear (s.reading c d).noted := by
  cases d with
  | fnDef d => exact readDefinition_error hs h
  | externalBlock b => exact readExternalBlock_error hs h
  | rootExport e => cases h
  | use u => cases h

end FileScan

end Sema
