import Sema.Proofs.Correspondence
import Sema.Proofs.FileReadings

/-!
Declarations that match across two programs: they are read alike, and their files see the same
signatures. Whatever else the programs hold, what an analysis finds in matching declarations is the
same, and so is what it tells of their nodes.
-/

namespace Sema

/-- What an analysis tells of a node: the kind of its note and the names of the types in it. -/
def Analysis.told (a : Analysis) (n : NodeId) : Option (NoteKind × List (Option String)) :=
  (a.notes.get? n).map fun x => (x.kind, x.types.map a.types.name?)

/-- What the check of the body in a declaration gives. -/
def Analysis.bodyOf (a : Analysis) (r : Reading) : Checked Unit :=
  (Scope.ofReading a r).checkDecl r.decl

theorem forall₂_with_mem {α β : Type} {R : α → β → Prop} {l : List α} {m : List β}
    (h : l.Forall₂ R m) : l.Forall₂ (fun x y => x ∈ l ∧ y ∈ m ∧ R x y) m := by
  obtain ⟨hlen, hzip⟩ := List.forall₂_iff_zip.mp h
  refine List.forall₂_iff_zip.mpr ⟨hlen, fun hxy => ?_⟩
  obtain ⟨hx, hy⟩ := List.of_mem_zip hxy
  exact ⟨hx, hy, hzip hxy⟩

theorem exists_mem_of_forall₂ {α β : Type} {R : α → β → Prop} : ∀ {l : List α} {m : List β},
    l.Forall₂ R m → ∀ {x : α}, x ∈ l → ∃ y ∈ m, R x y
  | _, _, .nil, _, hx => by cases hx
  | _, _, .cons h hl, _, hx => by
    rcases List.mem_cons.mp hx with rfl | hx
    · exact ⟨_, List.mem_cons_self .., h⟩
    · obtain ⟨y, hy, hR⟩ := exists_mem_of_forall₂ hl hx
      exact ⟨y, List.mem_cons_of_mem _ hy, hR⟩

/-- A part of a plain type is plain. -/
theorem TypeRef.isPlain_of_mem_parts {t u : TypeRef} (h : t ∈ u.parts) (hu : u.IsPlain) :
    t.IsPlain := by
  induction u with
  | named node name =>
    rw [List.mem_singleton.mp h]
    exact hu
  | pointer node m child ih =>
    rcases List.mem_append.mp h with h | h
    · exact ih h hu
    · rw [List.mem_singleton.mp h]
      exact hu

namespace Program

/-- Where names are plain, the findings of the signatures are those of the readings. -/
theorem findings_of_plain {p : Program} {options : BuildOptions} {a : Analysis}
    (h : (Analysis.initial options).Runs p.readings a)
    (hplain : ∀ f ∈ p.functions, f.proto.IsPlain) :
    a.findings = p.readings.flatMap Reading.findings := by
  obtain ⟨fs, hfs, heq, -⟩ := h.findings
  rw [hfs, heq fun r hr f hf => hplain f (List.mem_flatMap.mpr ⟨r, hr, hf⟩)]
  rfl

/-- What the signatures of a program leave, where no node is met twice and names are plain. -/
structure Signed (p : Program) (options : BuildOptions) (s : Analysis) : Prop where
  run : (Analysis.initial options).readFiles p.entry.toNat 0 p.files = .ok s
  ids : p.ids.Nodup
  plain : ∀ f ∈ declared p.decls, f.proto.IsPlain

namespace Signed

variable {p : Program} {options : BuildOptions} {s : Analysis} (h : p.Signed options s)
include h

theorem filed : s.Filed p.files.length := (signatures_ok h.run).1

theorem runs : (Analysis.initial options).Runs p.readings s := (signatures_ok h.run).2

theorem functions_eq : s.functions = p.functions := Program.functions_eq h.runs

theorem plain_of_mem {f : Function} (hf : f ∈ p.functions) : f.proto.IsPlain :=
  h.plain f (functions_subset p hf)

/-- The findings are those of the readings. -/
theorem findings_eq : s.findings = p.readings.flatMap Reading.findings :=
  findings_of_plain h.runs fun _ => h.plain_of_mem

theorem sees (file : Nat) (path : String) :
    Scope.Sees ⟨s, file, path⟩ (Function.env p.functions file) := by
  have hplain : ∀ f ∈ s.functions, f.proto.IsPlain :=
    fun f hf => h.plain_of_mem (h.functions_eq ▸ hf)
  rw [← h.functions_eq]
  exact ⟨h.filed.sound.types, h.filed.linked, h.filed.env_within hplain file,
    h.filed.within_env hplain file⟩

/-- A definition is left out exactly when it repeats a name. -/
theorem isSkipped_eq {r : Reading} (hr : r ∈ p.readings) {d : FnDef} (hd : r.decl = .fnDef d) :
    s.notes.isSkipped d.node.id =
      r.repeats (.defined d.proto d.node.id r.context.index) := by
  have hred := Reading.redefined_fnDef hd
  have hkept := Reading.kept_fnDef hd
  split at hkept
  · next hrep =>
    rw [if_pos hrep] at hred
    rw [hrep]
    exact isSkipped_of_redefined h.runs hr d (hred ▸ List.mem_singleton_self d)
  · next hrep =>
    rw [eq_false_of_ne_true hrep]
    exact not_isSkipped_of_kept h.ids h.runs h.filed.sound.distinct hr d
      (hkept ▸ List.mem_singleton_self d)

/-- The result of a definition that repeats no name is noted with the type that is written. -/
theorem exists_denotes {r : Reading} (hr : r ∈ p.readings) {d : FnDef} (hd : r.decl = .fnDef d)
    (hrep : r.repeats (.defined d.proto d.node.id r.context.index) = false) :
    ∃ i, s.notes.resolvedType? d.proto.returnType.node.id = some i ∧
      s.types.Denotes i d.proto.returnType.ty := by
  have hfun := Reading.functions_fnDef hd
  rw [hrep, if_neg Bool.false_ne_true] at hfun
  have hmem : Function.defined d.proto d.node.id r.context.index ∈ p.functions :=
    List.mem_flatMap.mpr ⟨r, hr, hfun ▸ List.mem_singleton_self _⟩
  have hret := d.proto.returnType_mem_types
  obtain ⟨i, hi, -, hden⟩ :=
    (h.filed.sound.resolves (h.functions_eq ▸ hmem) hret).resolvedType?
  exact ⟨i, hi, hden (h.plain_of_mem hmem _ hret)⟩

/-! ### What signatures tell of their nodes -/

theorem told_typeRef {f : Function} (hf : f ∈ p.functions) {t : TypeRef} (ht : t ∈ f.proto.parts) :
    s.told t.node.id = some (.typeRef, [some t.ty.name]) := by
  obtain ⟨i, hi, -, -, hden⟩ := h.filed.sound.resolved f (h.functions_eq ▸ hf) t ht
  obtain ⟨u, hu, htu⟩ := List.mem_flatMap.mp ht
  have hplain := TypeRef.isPlain_of_mem_parts htu (h.plain_of_mem hf u hu)
  have hname := h.filed.sound.types.name?_of_denotes (hden hplain)
  rw [Analysis.told, hi]
  simp [Note.kind, Note.types, hname]

theorem told_redefined {r : Reading} (hr : r ∈ p.readings) {d : FnDef} (hd : d ∈ r.redefined) :
    s.told d.node.id = some (.fnDef true, []) := by
  rw [Analysis.told, h.runs.skipped r hr d hd]
  rfl

/-- A node with a note after the signatures is noted in some reading. -/
theorem exists_noted {n : NodeId} (hn : s.told n ≠ none) :
    ∃ r ∈ p.readings, n ∈ r.noted.map Prod.fst := by
  have hwritten : s.notes.written = p.readings.flatMap Reading.noted := h.runs.written
  rw [Analysis.told, ne_eq, Option.map_eq_none_iff, Notes.get?_eq_none_iff, not_not, hwritten,
    List.map_flatMap] at hn
  exact List.mem_flatMap.mp hn

end Signed

/-! ### Declarations that match -/

/-- Whether the reading of a declaration in `p` and one in `q` are alike, and the files of both see
the same signatures. -/
structure Matches (p q : Program) (r r' : Reading) : Prop where
  left : r ∈ p.readings
  right : r' ∈ q.readings
  alike : r.Alike r'
  env : Function.env q.functions r'.context.index = Function.env p.functions r.context.index

/-- Files that are read alike match declaration by declaration when the functions that are shared are
the same. -/
theorem forall₂_matches {p q : Program} {i j : Nat}
    (h : (p.readingsIn i).Forall₂ Reading.Alike (q.readingsIn j))
    (hshared : ∀ name, (q.functions.filter (Function.isShared name)).map Function.signature =
      (p.functions.filter (Function.isShared name)).map Function.signature) :
    (p.readingsIn i).Forall₂ (p.Matches q) (q.readingsIn j) := by
  refine (forall₂_with_mem h).imp fun r r' ⟨hr, hr', halike⟩ => ?_
  refine ⟨mem_readings_iff.mpr ⟨i, hr⟩, mem_readings_iff.mpr ⟨j, hr'⟩, halike, ?_⟩
  rw [index_of_mem_readingsIn hr, index_of_mem_readingsIn hr']
  exact env_eq_of_functionsIn (functionsIn_of_alike h) hshared

namespace Matches

variable {p q : Program} {r r' : Reading}

theorem symm (h : p.Matches q r r') : q.Matches p r' r :=
  ⟨h.right, h.left, h.alike.symm, h.env.symm⟩

section

variable {options options' : BuildOptions} {s s' : Analysis} (hs : p.Signed options s)
  (hs' : q.Signed options' s') (h : p.Matches q r r')
include hs hs' h

/-- A node that is noted with the signatures is told the same. -/
theorem told_eq {n : NodeId} (hn : n ∈ r.noted.map Prod.fst) : s.told n = s'.told n := by
  rw [Reading.noted, List.map_append, List.mem_append, List.map_flatMap, List.mem_flatMap] at hn
  rcases hn with ⟨f, hf, hn⟩ | hn
  · rw [List.map_map, List.mem_map] at hn
    obtain ⟨t, ht, rfl⟩ := hn
    have hf' : f.inFile r'.context.index ∈ r'.functions := by
      rw [h.alike.functions_eq]
      exact List.mem_map_of_mem hf
    exact (hs.told_typeRef (List.mem_flatMap.mpr ⟨r, h.left, hf⟩) ht).trans
      (hs'.told_typeRef (List.mem_flatMap.mpr ⟨r', h.right, hf'⟩) ht).symm
  · rw [List.map_map, List.mem_map] at hn
    obtain ⟨d, hd, rfl⟩ := hn
    have hd' : d ∈ r'.redefined := h.alike.redefined_eq ▸ hd
    exact (hs.told_redefined h.left hd).trans (hs'.told_redefined h.right hd').symm

theorem twin : (Scope.ofReading s r).Twin (Scope.ofReading s' r') where
  path := h.alike.path.symm
  sees := ⟨_, hs.sees _ _, h.env ▸ hs'.sees _ _⟩

/-- The bodies in matching declarations are checked alike. -/
theorem mirrors_bodyOf :
    (s.bodyOf r).Mirrors s.types s'.types (fun _ _ => True) (s'.bodyOf r') := by
  rw [Analysis.bodyOf, Analysis.bodyOf, h.alike.decl]
  refine (h.twin hs hs').mirrors_checkDecl fun d hd => ?_
  have hrep := h.alike.repeats d hd
  have hskip := hs.isSkipped_eq h.left hd
  have hskip' := hs'.isSkipped_eq h.right (h.alike.decl.trans hd)
  refine ⟨hskip.trans (hrep.symm.trans hskip'.symm), fun hkept => ?_⟩
  have hnot := hskip.symm.trans hkept
  obtain ⟨i, hi, hden⟩ := hs.exists_denotes h.left hd hnot
  obtain ⟨j, hj, hden'⟩ := hs'.exists_denotes h.right (h.alike.decl.trans hd) (hrep.trans hnot)
  exact ⟨i, j, hi, hj, _, hden, hden'⟩

/-- A node that is noted with the body is noted with the same types. -/
theorem exists_same {n : NodeId} {x : Note} (hx : (n, x) ∈ (s.bodyOf r).notes) :
    ∃ y, (n, y) ∈ (s'.bodyOf r').notes ∧ x.Same s.types s'.types y := by
  obtain ⟨⟨m, y⟩, hy, heq, hsame⟩ := exists_mem_of_forall₂ (h.mirrors_bodyOf hs hs').notes hx
  obtain rfl : n = m := heq
  exact ⟨y, hy, hsame⟩

end

end Matches

end Program

/-! ### Results -/

theorem Note.Same.told_eq {t u : TypeTable} (ht : t.WellFormed) (hu : u.WellFormed) {x y : Note}
    (h : x.Same t u y) : (x.kind, x.types.map t.name?) = (y.kind, y.types.map u.name?) := by
  have hnames : x.types.map t.name? = y.types.map u.name? := by
    rw [← List.forall₂_eq_eq_eq, List.forall₂_map_left_iff, List.forall₂_map_right_iff]
    exact h.types.imp fun _ _ hsame => hsame.name?_eq ht hu
  rw [h.kind, hnames]

namespace Analysis

variable {s : Analysis} {l : List (NodeId × Note)} {notes : Notes} (h : s.notes.RecordedAll l notes)
  {n : NodeId}
include h

theorem told_of_mem {x : Note} (hx : (n, x) ∈ l) (fs : List Finding) :
    told { s with notes := notes, findings := fs } n = some (x.kind, x.types.map s.types.name?) := by
  rw [told, h.get? _ hx]
  rfl

theorem told_of_not_mem (hn : n ∉ l.map Prod.fst) (fs : List Finding) :
    told { s with notes := notes, findings := fs } n = s.told n := by
  have hget : notes.get? n = s.notes.get? n := by
    refine Option.ext fun x => ⟨fun hx => ?_, h.within n x⟩
    rcases h.old_or_new n x hx with hold | hnew
    · exact hold
    · exact absurd (List.mem_map_of_mem hnew) hn
  rw [told, told, hget]

end Analysis

namespace Program

variable {p q : Program} {options options' : BuildOptions} {s s' a b : Analysis}

theorem exists_signed (hids : p.ids.Nodup) (hplain : ∀ f ∈ declared p.decls, f.proto.IsPlain)
    (options : BuildOptions) : ∃ s, p.Signed options s := by
  obtain ⟨s, hs⟩ := exists_signatures hids options
  exact ⟨s, hs, hids, hplain⟩

namespace Signed

variable (h : p.Signed options s)
include h

/-- There is a result when all bodies can be checked. -/
theorem exists_analyze_iff : (∃ a, p.analyze options = .ok a) ↔
    ∀ r ∈ p.readings, (s.bodyOf r).outcome = .ok () := by
  have hforM : (s.checkFiles 0 p.files).outcome = .ok () ↔
      ∀ r ∈ p.readings, (s.bodyOf r).outcome = .ok () := by
    rw [checkFiles_eq]
    exact Checked.outcome_forM_iff
  rw [← hforM]
  constructor
  · rintro ⟨a, ha⟩
    obtain ⟨s', notes, hs', -, hok, -⟩ := analyze_eq_ok_iff.mp ha
    rw [h.run] at hs'
    obtain rfl := Except.ok.inj hs'
    exact hok
  · intro hok
    obtain ⟨notes, hnotes⟩ := recordAll_ok h.runs h.ids
    exact ⟨_, analyze_eq_ok_iff.mpr ⟨s, notes, h.run, hnotes, hok, rfl⟩⟩

/-- A result has the notes and the findings of the bodies. -/
theorem of_analyze (ha : p.analyze options = .ok a) : ∃ notes,
    s.notes.RecordedAll (p.readings.flatMap fun r => (s.bodyOf r).notes) notes ∧
    a = { s with
      notes := notes
      findings := s.findings ++ (p.readings.flatMap fun r => (s.bodyOf r).findings) ++
        Analysis.outputFindings p s.output } := by
  have hall := h.exists_analyze_iff.mp ⟨a, ha⟩
  obtain ⟨s', notes, hs', hnotes, -, rfl⟩ := analyze_eq_ok_iff.mp ha
  rw [h.run] at hs'
  obtain rfl := Except.ok.inj hs'
  have hbodies : s.checkFiles 0 p.files = ⟨p.readings.flatMap fun r => (s.bodyOf r).notes,
      p.readings.flatMap fun r => (s.bodyOf r).findings, .ok ()⟩ := by
    rw [checkFiles_eq]
    exact Checked.forM_of_ok hall
  rw [hbodies] at hnotes ⊢
  exact ⟨notes, Notes.recordedAll hnotes, rfl⟩

/-- The nodes of a declaration are noted with its body. -/
theorem mem_ids_of_mem_bodyOf {r : Reading} (hr : r ∈ p.readings) {n : NodeId} {x : Note}
    (hx : (n, x) ∈ (s.bodyOf r).notes) : n ∈ r.decl.ids := by
  have hwithin := Scope.within_checkDecl (isSkipped_of_redefined h.runs hr)
  refine r.noted_sublist.subset (List.mem_append_right _ (hwithin.subset ?_))
  exact List.mem_map_of_mem (f := Prod.fst) hx

end Signed

section

variable (hs : p.Signed options s) (hs' : q.Signed options' s') {n : NodeId}
  (hp : ∀ r ∈ p.readings, n ∈ r.decl.ids → ∃ r', p.Matches q r r')
include hs hs' hp

/-- A node that has a note after the signatures is told the same in another program if all
declarations with that node have a match there. -/
theorem told_eq_of_ne_none (hn : s.told n ≠ none) : s.told n = s'.told n := by
  obtain ⟨r, hr, hmem⟩ := hs.exists_noted hn
  obtain ⟨r', hm⟩ := hp r hr (r.noted_sublist.subset (List.mem_append_left _ hmem))
  exact hm.told_eq hs hs' hmem

theorem exists_same_of_mem {x : Note}
    (hx : (n, x) ∈ p.readings.flatMap fun r => (s.bodyOf r).notes) :
    ∃ y, (n, y) ∈ (q.readings.flatMap fun r => (s'.bodyOf r).notes) ∧
      x.Same s.types s'.types y := by
  obtain ⟨r, hr, hmem⟩ := List.mem_flatMap.mp hx
  obtain ⟨r', hm⟩ := hp r hr (hs.mem_ids_of_mem_bodyOf hr hmem)
  obtain ⟨y, hy, hsame⟩ := hm.exists_same hs hs' hmem
  exact ⟨y, List.mem_flatMap.mpr ⟨r', hm.right, hy⟩, hsame⟩

/-- What is told of a node is the same in two programs when all declarations with that node match. -/
theorem told_analyze (hq : ∀ r ∈ q.readings, n ∈ r.decl.ids → ∃ r', q.Matches p r r')
    (ha : p.analyze options = .ok a) (hb : q.analyze options' = .ok b) : a.told n = b.told n := by
  obtain ⟨notes, hnotes, rfl⟩ := hs.of_analyze ha
  obtain ⟨notes', hnotes', rfl⟩ := hs'.of_analyze hb
  by_cases hn : n ∈ (p.readings.flatMap fun r => (s.bodyOf r).notes).map Prod.fst
  · obtain ⟨⟨_, x⟩, hx, rfl⟩ := List.mem_map.mp hn
    obtain ⟨y, hy, hsame⟩ := exists_same_of_mem hs hs' hp hx
    rw [Analysis.told_of_mem hnotes hx, Analysis.told_of_mem hnotes' hy,
      hsame.told_eq hs.filed.sound.types hs'.filed.sound.types]
  · have hn' : n ∉ (q.readings.flatMap fun r => (s'.bodyOf r).notes).map Prod.fst := by
      intro hmem
      obtain ⟨⟨_, y⟩, hy, rfl⟩ := List.mem_map.mp hmem
      obtain ⟨x, hx, -⟩ := exists_same_of_mem hs' hs hq hy
      exact hn (List.mem_map.mpr ⟨_, hx, rfl⟩)
    -- no body notes the node in either program, so it is told what the signatures tell
    rw [Analysis.told_of_not_mem hnotes hn, Analysis.told_of_not_mem hnotes' hn']
    by_cases hnone : s.told n = none
    · by_contra hne
      exact hne (told_eq_of_ne_none hs' hs hq (hnone ▸ Ne.symm hne)).symm
    · exact told_eq_of_ne_none hs hs' hp hnone

end

end Program

end Sema
