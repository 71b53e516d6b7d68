import Mathlib.Data.List.Flatten
import Mathlib.Data.List.Pairwise
import Mathlib.Data.List.Perm.Basic
import Sema.Proofs.Safety
import Sema.Proofs.Trace

/-!
Which nodes have notes. Where no node is met twice nothing is noted twice, and the nodes with a note
are the written types in the signatures of functions, the live parts of the bodies that are checked,
and the definitions.
-/

namespace Sema

namespace Reading

variable {r : Reading} {d : FnDef}

/-- The definition whose body is checked: it repeats no name. -/
def kept (r : Reading) : List FnDef :=
  match r.decl with
  | .fnDef d => if r.repeats (.defined d.proto d.node.id r.context.index) then [] else [d]
  | _ => []

/-- The nodes that are noted when the body is checked. -/
def bodyIds (r : Reading) : List NodeId :=
  r.kept.flatMap fun d => d.body.parts.map Expr.id ++ [d.node.id]

/-- The notes that are written when the body is checked, where types are as told. -/
def bodyNoted (type? : NodeId → Option TypeId) (r : Reading) : List (NodeId × NoteKind) :=
  r.kept.flatMap fun d => (d.body.live (Expr.diverges type?)).map (fun e => (e.id, .expr)) ++
    [(d.node.id, .fnDef false)]

theorem kept_fnDef (hd : r.decl = .fnDef d) : r.kept =
    if r.repeats (.defined d.proto d.node.id r.context.index) then [] else [d] := by
  rw [kept, hd]

theorem decl_eq_of_mem_kept (h : d ∈ r.kept) : r.decl = .fnDef d := by
  unfold kept at h
  split at h
  · next d' hd =>
    split at h
    · cases h
    · rw [hd, List.mem_singleton.mp h]
  · cases h

theorem kept_eq_of_mem (h : d ∈ r.kept) : r.kept = [d] := by
  have hkept := kept_fnDef (decl_eq_of_mem_kept h)
  rw [hkept] at h ⊢
  split at h
  · cases h
  · next hrep => rw [if_neg hrep]

theorem decl_eq_of_mem_redefined (h : d ∈ r.redefined) : r.decl = .fnDef d := by
  unfold redefined at h
  split at h
  · next d' hd =>
    split at h
    · rw [hd, List.mem_singleton.mp h]
    · cases h
  · cases h

/-- A definition is left out or its body is checked. -/
theorem mem_redefined_or_mem_kept (hd : r.decl = .fnDef d) : d ∈ r.redefined ∨ d ∈ r.kept := by
  rw [redefined_fnDef hd, kept_fnDef hd]
  split
  · exact .inl (List.mem_singleton_self d)
  · exact .inr (List.mem_singleton_self d)

theorem not_mem_kept_of_mem_redefined {d' : FnDef} (h : d ∈ r.redefined) : d' ∉ r.kept := by
  have hd := decl_eq_of_mem_redefined h
  rw [redefined_fnDef hd] at h
  rw [kept_fnDef hd]
  split at h
  · next hrep =>
    rw [if_pos hrep]
    exact List.not_mem_nil
  · cases h

/-- Both halves of an analysis together note no node of a declaration twice. -/
theorem noted_sublist (r : Reading) :
    (r.noted.map Prod.fst ++ r.bodyIds).Sublist r.decl.ids := by
  cases hd : r.decl with
  | fnDef d =>
    rw [noted, bodyIds, functions_fnDef hd, redefined_fnDef hd, kept_fnDef hd, Decl.ids]
    split
    · exact List.sublist_append_right _ _
    · simp [Function.defined, TypeRef.noted, Function.comp_def]
  | externalBlock b =>
    have hred : r.redefined = [] := by rw [redefined, hd]
    have hkept : r.kept = [] := by rw [kept, hd]
    rw [noted, bodyIds, functions_externalBlock hd, hred, hkept, Decl.ids]
    simp [Function.declared, TypeRef.noted, List.map_flatMap, List.flatMap_map, Function.comp_def]
  | rootExport e => simp [noted, bodyIds, functions, redefined, kept, hd, Decl.functions]
  | use u => simp [noted, bodyIds, functions, redefined, kept, hd, Decl.functions]

end Reading

/-! ### Declarations -/

namespace Scope

open Checked (Within Gives)

variable {a : Analysis} {r : Reading}

/-- The scope in which a declaration is checked. -/
def ofReading (a : Analysis) (r : Reading) : Scope := ⟨a, r.context.index, r.context.path⟩

theorem within_checkDefinition (s : Scope) (d : FnDef) :
    (s.checkDefinition d).Within (d.body.parts.map Expr.id ++ [d.node.id]) := by
  rw [checkDefinition]
  split
  · exact .of_notes_eq_nil rfl _
  · refine .bind_of_nil (Checked.notes_ofOption _ _) fun ret => ?_
    exact (within_check ret d.body _).bind fun t => List.Sublist.refl _

theorem notes_checkDefinition_of_skipped {s : Scope} {d : FnDef}
    (h : s.analysis.notes.isSkipped d.node.id) : (s.checkDefinition d).notes = [] := by
  rw [checkDefinition, if_pos h]
  rfl

theorem notes_checkUse (s : Scope) (u : UseDecl) : (s.checkDecl (.use u)).notes = [] := by
  have h : (s.checkDecl (.use u)).Within (u.directives.flatMap fun _ => []) :=
    .forM fun _ _ => .of_notes_eq_nil rfl _
  rw [List.flatMap_eq_nil_iff.mpr fun _ _ => rfl, Within, List.sublist_nil,
    List.map_eq_nil_iff] at h
  exact h

/-- What is not kept gives no notes. -/
theorem notes_checkDecl_of_not_kept (hred : ∀ d ∈ r.redefined, a.notes.isSkipped d.node.id)
    (hk : r.kept = []) : ((ofReading a r).checkDecl r.decl).notes = [] := by
  cases hd : r.decl with
  | fnDef d =>
    rcases Reading.mem_redefined_or_mem_kept hd with h | h
    · exact notes_checkDefinition_of_skipped (hred d h)
    · rw [hk] at h
      cases h
  | externalBlock b => rfl
  | rootExport e => rfl
  | use u => exact notes_checkUse _ u

theorem within_checkDecl (hred : ∀ d ∈ r.redefined, a.notes.isSkipped d.node.id) :
    ((ofReading a r).checkDecl r.decl).Within r.bodyIds := by
  cases hk : r.kept with
  | nil => exact .of_notes_eq_nil (notes_checkDecl_of_not_kept hred hk) _
  | cons d l =>
    have hmem : d ∈ r.kept := hk ▸ List.mem_cons_self ..
    rw [Reading.decl_eq_of_mem_kept hmem]
    refine (within_checkDefinition _ d).trans ?_
    rw [Reading.bodyIds, hk, List.flatMap_cons]
    exact List.sublist_append_left _ _

section

variable {type? : NodeId → Option TypeId}

/-- A body that is checked to its end has notes on its live parts, and one on its definition. -/
theorem noted_of_checkDefinition {s : Scope} {d : FnDef} {l : List (NodeId × Note)}
    (hskip : s.analysis.notes.isSkipped d.node.id = false) (h : (s.checkDefinition d).Gives () l)
    (hl : Agrees type? l) :
    (l.map fun x => (x.1, x.2.kind)) = (d.body.live (Expr.diverges type?)).map
        (fun e => (e.id, .expr)) ++ [(d.node.id, .fnDef false)] ∧
      ∃ t, type? d.body.id = some t ∧ (d.node.id, .fnDef false (some t)) ∈ l := by
  rw [checkDefinition, hskip, if_neg Bool.false_ne_true] at h
  obtain ⟨ret, -, h⟩ := h.of_bind_of_nil (Checked.notes_ofOption _ _)
  obtain ⟨t, m, _, hbody, hself, rfl⟩ := Checked.gives_bind_iff.mp h
  obtain rfl := Checked.gives_note_iff.mp hself
  obtain ⟨hm, ht⟩ := marks_of_check ret d.body hbody hl.append.1
  refine ⟨?_, t, ht, List.mem_append_right _ (List.mem_singleton_self _)⟩
  rw [List.map_append, hm]
  rfl

theorem noted_of_checkDecl (hred : ∀ d ∈ r.redefined, a.notes.isSkipped d.node.id)
    (hkept : ∀ d ∈ r.kept, a.notes.isSkipped d.node.id = false) {l : List (NodeId × Note)}
    (h : ((ofReading a r).checkDecl r.decl).Gives () l) (hl : Agrees type? l) :
    (l.map fun x => (x.1, x.2.kind)) = r.bodyNoted type? ∧
      ∀ d ∈ r.kept, ∃ t, type? d.body.id = some t ∧ (d.node.id, .fnDef false (some t)) ∈ l := by
  cases hk : r.kept with
  | nil =>
    have hnil : l = [] := h.2.symm.trans (notes_checkDecl_of_not_kept hred hk)
    rw [hnil, Reading.bodyNoted, hk]
    exact ⟨rfl, by simp⟩
  | cons d l' =>
    have hmem : d ∈ r.kept := hk ▸ List.mem_cons_self ..
    have hd := Reading.decl_eq_of_mem_kept hmem
    rw [Reading.kept_eq_of_mem hmem] at hk
    obtain rfl := (List.cons.inj hk).2
    rw [hd] at h
    obtain ⟨hnoted, ht⟩ := noted_of_checkDefinition (hkept d hmem) h hl
    rw [hnoted, Reading.bodyNoted, Reading.kept_eq_of_mem hmem, List.flatMap_singleton]
    exact ⟨rfl, List.forall_mem_singleton.mpr ht⟩

end

end Scope

/-! ### Programs -/

namespace Program

variable {p : Program} {options : BuildOptions} {a : Analysis}

/-- Where nodes are distinct, so are those that are noted in either half. -/
theorem nodup_noted (h : p.ids.Nodup) :
    ((p.readings.flatMap Reading.noted).map Prod.fst ++
      p.readings.flatMap Reading.bodyIds).Nodup := by
  rw [ids_eq] at h
  have hsub := List.Sublist.flatMap_right p.readings fun r _ => r.noted_sublist
  rw [List.map_flatMap]
  exact (List.flatMap_append_perm _ _ _).nodup_iff.mpr (h.sublist hsub)

/-- Declarations that share a node are one declaration. -/
theorem reading_unique (h : p.ids.Nodup) {r r' : Reading} (hr : r ∈ p.readings)
    (hr' : r' ∈ p.readings) {n : NodeId} (hn : n ∈ r.decl.ids) (hn' : n ∈ r'.decl.ids) :
    r = r' := by
  rw [ids_eq, List.nodup_flatMap] at h
  by_contra hne
  have hsymm : Std.Symm (Function.onFun List.Disjoint fun r : Reading => r.decl.ids) :=
    ⟨fun _ _ hd _ hx hy => hd hy hx⟩
  exact h.2.forall hr hr' hne hn hn'

/-- The bodies are checked reading by reading. -/
theorem checkFiles_eq (p : Program) (a : Analysis) : a.checkFiles 0 p.files =
    p.readings.forM fun r => (Scope.ofReading a r).checkDecl r.decl := by
  rw [Analysis.checkFiles_eq p.entry.toNat]
  change p.decls.forM _ = _
  rw [← map_readingsFrom [] false p.decls]
  simp only [List.forM_eq_forM, List.forM_map]
  rfl

/-- The definitions that are left out. -/
def redefinitions (p : Program) : List (FileContext × FnDef) :=
  p.readings.flatMap fun r => r.redefined.map (r.context, ·)

/-- The definitions whose bodies are checked. -/
def kept (p : Program) : List (FileContext × FnDef) :=
  p.readings.flatMap fun r => r.kept.map (r.context, ·)

theorem mem_redefinitions_iff {c : FileContext} {d : FnDef} :
    (c, d) ∈ p.redefinitions ↔ ∃ r ∈ p.readings, d ∈ r.redefined ∧ r.context = c := by
  simp [redefinitions]

theorem mem_kept_iff {c : FileContext} {d : FnDef} :
    (c, d) ∈ p.kept ↔ ∃ r ∈ p.readings, d ∈ r.kept ∧ r.context = c := by
  simp [kept]

theorem mem_decls_of_mem_readings {r : Reading} (h : r ∈ p.readings) :
    (r.context, r.decl) ∈ p.decls := by
  rw [← map_readingsFrom [] false p.decls]
  exact List.mem_map_of_mem h

theorem mem_decls_of_mem_redefinitions {c : FileContext} {d : FnDef}
    (h : (c, d) ∈ p.redefinitions) : (c, Decl.fnDef d) ∈ p.decls := by
  obtain ⟨r, hr, hd, rfl⟩ := mem_redefinitions_iff.mp h
  exact Reading.decl_eq_of_mem_redefined hd ▸ mem_decls_of_mem_readings hr

/-- Where nodes are distinct, the definitions are those left out and those kept. -/
theorem mem_kept_iff_not_mem_redefinitions (h : p.ids.Nodup) {c : FileContext} {d : FnDef} :
    (c, d) ∈ p.kept ↔ (c, Decl.fnDef d) ∈ p.decls ∧ (c, d) ∉ p.redefinitions := by
  rw [mem_kept_iff, mem_redefinitions_iff]
  constructor
  · rintro ⟨r, hr, hd, rfl⟩
    have hdecl := Reading.decl_eq_of_mem_kept hd
    refine ⟨hdecl ▸ mem_decls_of_mem_readings hr, ?_⟩
    rintro ⟨r', hr', hd', -⟩
    have hdecl' := Reading.decl_eq_of_mem_redefined hd'
    obtain rfl := reading_unique h hr hr' (n := d.node.id) (by simp [hdecl, Decl.ids])
      (by simp [hdecl', Decl.ids])
    exact Reading.not_mem_kept_of_mem_redefined hd' hd
  · rintro ⟨hd, hnot⟩
    obtain ⟨r, hr, rfl, hdecl⟩ := exists_reading hd
    rcases Reading.mem_redefined_or_mem_kept hdecl with hred | hkept
    · exact absurd ⟨r, hr, hred, rfl⟩ hnot
    · exact ⟨r, hr, hkept, rfl⟩

theorem isSkipped_of_redefined (h : (Analysis.initial options).Runs p.readings a) {r : Reading}
    (hr : r ∈ p.readings) : ∀ d ∈ r.redefined, a.notes.isSkipped d.node.id := by
  intro d hd
  rw [Notes.isSkipped, h.skipped r hr d hd]

theorem within_checkFiles (h : (Analysis.initial options).Runs p.readings a) :
    (a.checkFiles 0 p.files).Within (p.readings.flatMap Reading.bodyIds) := by
  rw [checkFiles_eq]
  exact .forM fun r hr => Scope.within_checkDecl (isSkipped_of_redefined h hr)

/-- Where nodes are distinct, the notes of the bodies can be written. -/
theorem recordAll_ok (h : (Analysis.initial options).Runs p.readings a) (hids : p.ids.Nodup) :
    ∃ notes, a.notes.recordAll (a.checkFiles 0 p.files).notes = .ok notes := by
  have hnodup := nodup_noted hids
  have hsub := within_checkFiles h
  refine Notes.recordAll_of_vacant (hnodup.of_append_right.sublist hsub) fun n hn => ?_
  have hwritten : a.notes.written = p.readings.flatMap Reading.noted := h.written
  rw [Notes.get?_eq_none_iff, hwritten]
  exact fun hn' => List.disjoint_of_nodup_append hnodup hn' (hsub.subset hn)

/-- Where nodes are distinct, the signatures can be read. -/
theorem exists_signatures (h : p.ids.Nodup) (options : BuildOptions) :
    ∃ a, (Analysis.initial options).readFiles p.entry.toNat 0 p.files = .ok a := by
  cases hs : (Analysis.initial options).readFiles p.entry.toNat 0 p.files with
  | ok a => exact ⟨a, rfl⟩
  | error e => exact absurd (nodup_noted h).of_append_left (signatures_error hs).2

theorem analyze_ne_alreadyAnnotated (h : p.ids.Nodup) (n : NodeId) :
    p.analyze options ≠ .error (.alreadyAnnotated n) := by
  intro he
  simp only [analyze, Analysis.absorb, bind_eq_error_iff] at he
  rcases he with he | ⟨a, ha, he | ⟨_, -, he⟩⟩
  · exact (signatures_error he).2 (nodup_noted h).of_append_left
  · rcases he with he | ⟨notes, -, he⟩
    · obtain ⟨notes, hn⟩ := recordAll_ok (signatures_ok ha).2 h
      rw [hn] at he
      cases he
    · rcases he with he | ⟨_, -, he⟩
      · cases (ensures_checkFiles ha).error _ he
      · cases he
  · cases he

/-! ### Results -/

/-- The functions of a program are those from outside and those whose bodies are checked. -/
theorem mem_functions_iff {f : Function} : f ∈ p.functions ↔
    (∃ c e, (c, Decl.externalBlock e) ∈ p.decls ∧
      ∃ g ∈ e.functions, f = .declared g.proto c.index) ∨
    ∃ x ∈ p.kept, f = .defined x.2.proto x.2.node.id x.1.index := by
  rw [functions, List.mem_flatMap]
  constructor
  · rintro ⟨r, hr, hf⟩
    cases hd : r.decl with
    | fnDef d =>
      have hkept := Reading.kept_fnDef hd
      rw [Reading.functions_fnDef hd] at hf
      split at hf
      · cases hf
      · next hrep =>
        rw [if_neg hrep] at hkept
        have hmem : d ∈ r.kept := hkept ▸ List.mem_singleton_self d
        exact .inr ⟨(r.context, d), mem_kept_iff.mpr ⟨r, hr, hmem, rfl⟩, List.mem_singleton.mp hf⟩
    | externalBlock e =>
      rw [Reading.functions_externalBlock hd] at hf
      obtain ⟨g, hg, rfl⟩ := List.mem_map.mp hf
      exact .inl ⟨r.context, e, hd ▸ mem_decls_of_mem_readings hr, g, hg, rfl⟩
    | rootExport e => simp [Reading.functions, hd, Decl.functions] at hf
    | use u => simp [Reading.functions, hd, Decl.functions] at hf
  · rintro (⟨c, e, hdecl, g, hg, rfl⟩ | ⟨⟨c, d⟩, hx, rfl⟩)
    · obtain ⟨r, hr, rfl, hd⟩ := exists_reading hdecl
      refine ⟨r, hr, ?_⟩
      rw [Reading.functions_externalBlock hd]
      exact List.mem_map_of_mem hg
    · obtain ⟨r, hr, hd, rfl⟩ := mem_kept_iff.mp hx
      have hkept := Reading.kept_eq_of_mem hd
      have hdecl := Reading.decl_eq_of_mem_kept hd
      rw [Reading.kept_fnDef hdecl] at hkept
      refine ⟨r, hr, ?_⟩
      rw [Reading.functions_fnDef hdecl, if_neg]
      · exact List.mem_singleton_self _
      · intro hrep
        rw [if_pos hrep] at hkept
        cases hkept

/-- What a result must have for its notes to cover a program exactly. -/
structure Covered (p : Program) (b : Analysis) : Prop where
  /-- The definitions left out are those reported to repeat a name. -/
  reported : b.findings.filter Finding.isRedefinition =
    p.redefinitions.map fun x => ⟨x.1.path, x.2.node.pos, .redefinition x.2.proto.name⟩
  /-- All others are registered, as are all functions from outside. -/
  registered : ∀ f, f ∈ b.functions ↔
    (∃ c e, (c, Decl.externalBlock e) ∈ p.decls ∧
      ∃ g ∈ e.functions, f = .declared g.proto c.index) ∨
    ∃ c d, (c, Decl.fnDef d) ∈ p.decls ∧ (c, d) ∉ p.redefinitions ∧
      f = .defined d.proto d.node.id c.index
  typeRefs : ∀ n, (∃ t, b.notes.get? n = some (.typeRef t)) ↔
    ∃ f ∈ b.functions, ∃ t ∈ f.proto.parts, t.node.id = n
  exprs : ∀ n, (∃ t, b.notes.get? n = some (.expr t)) ↔
    ∃ c d, (c, Decl.fnDef d) ∈ p.decls ∧ (c, d) ∉ p.redefinitions ∧
      ∃ e ∈ d.body.live (Expr.diverges b.notes.exprType?), e.id = n
  fnDefs : ∀ n, (∃ skip t, b.notes.get? n = some (.fnDef skip t)) ↔
    ∃ c d, (c, Decl.fnDef d) ∈ p.decls ∧ d.node.id = n
  skipped : ∀ c d, (c, d) ∈ p.redefinitions → b.notes.get? d.node.id = some (.fnDef true none)
  checked : ∀ c d, (c, Decl.fnDef d) ∈ p.decls → (c, d) ∉ p.redefinitions →
    ∃ t, b.notes.exprType? d.body.id = some t ∧
      b.notes.get? d.node.id = some (.fnDef false (some t))

theorem not_isSkipped_of_kept (hids : p.ids.Nodup)
    (h : (Analysis.initial options).Runs p.readings a) (ha : a.notes.Distinct) {r : Reading}
    (hr : r ∈ p.readings) : ∀ d ∈ r.kept, a.notes.isSkipped d.node.id = false := by
  intro d hd
  rw [← Bool.not_eq_true, isSkipped_iff h ha]
  rintro ⟨r', hr', d', hd', heq⟩
  have hdecl := Reading.decl_eq_of_mem_kept hd
  have hdecl' := Reading.decl_eq_of_mem_redefined hd'
  obtain rfl := reading_unique hids hr hr' (n := d.node.id) (by simp [hdecl, Decl.ids])
    (by simp [hdecl', Decl.ids, heq])
  exact Reading.not_mem_kept_of_mem_redefined hd' hd

/-- The notes that checking gives when it comes to its end and leaves out no kept body. -/
theorem noted_of_not_skipped (h : (Analysis.initial options).Runs p.readings a)
    (hkept : ∀ r ∈ p.readings, ∀ d ∈ r.kept, a.notes.isSkipped d.node.id = false)
    (hok : (a.checkFiles 0 p.files).outcome = .ok ()) {type? : NodeId → Option TypeId}
    (hl : Scope.Agrees type? (a.checkFiles 0 p.files).notes) :
    ((a.checkFiles 0 p.files).notes.map fun x => (x.1, x.2.kind)) =
        p.readings.flatMap (Reading.bodyNoted type?) ∧
      ∀ r ∈ p.readings, ∀ d ∈ r.kept, ∃ t, type? d.body.id = some t ∧
        (d.node.id, .fnDef false (some t)) ∈ (a.checkFiles 0 p.files).notes := by
  rw [checkFiles_eq] at hok hl ⊢
  obtain ⟨hall, hnotes⟩ := Checked.notes_forM hok
  rw [hnotes] at hl ⊢
  have hdecl := fun r hr => Scope.noted_of_checkDecl (isSkipped_of_redefined h hr) (hkept r hr)
    ⟨hall r hr, rfl⟩ fun n t hn => hl n t (List.mem_flatMap.mpr ⟨r, hr, hn⟩)
  constructor
  · rw [List.map_flatMap]
    exact List.flatMap_congr fun r hr => (hdecl r hr).1
  · intro r hr d hd
    obtain ⟨t, ht, hmem⟩ := (hdecl r hr).2 d hd
    exact ⟨t, ht, List.mem_flatMap.mpr ⟨r, hr, hmem⟩⟩

/-- Where nodes are distinct, checking leaves out no kept body. -/
theorem noted_of_checkFiles (hids : p.ids.Nodup)
    (h : (Analysis.initial options).Runs p.readings a) (ha : a.notes.Distinct)
    (hok : (a.checkFiles 0 p.files).outcome = .ok ()) {type? : NodeId → Option TypeId}
    (hl : Scope.Agrees type? (a.checkFiles 0 p.files).notes) :
    ((a.checkFiles 0 p.files).notes.map fun x => (x.1, x.2.kind)) =
        p.readings.flatMap (Reading.bodyNoted type?) ∧
      ∀ r ∈ p.readings, ∀ d ∈ r.kept, ∃ t, type? d.body.id = some t ∧
        (d.node.id, .fnDef false (some t)) ∈ (a.checkFiles 0 p.files).notes :=
  noted_of_not_skipped h (fun _ hr => not_isSkipped_of_kept hids h ha hr) hok hl

section

variable {b : Analysis}

theorem mem_flatMap_noted_iff {n : NodeId} {k : NoteKind} :
    (n, k) ∈ p.readings.flatMap Reading.noted ↔
      (k = .typeRef ∧ ∃ f ∈ p.functions, ∃ t ∈ f.proto.parts, t.node.id = n) ∨
      (k = .fnDef true ∧ ∃ c d, (c, d) ∈ p.redefinitions ∧ d.node.id = n) := by
  simp only [Reading.noted, functions, redefinitions, TypeRef.noted, List.mem_flatMap,
    List.mem_append, List.mem_map, Prod.mk.injEq]
  constructor
  · rintro ⟨r, hr, ⟨f, hf, t, ht, rfl, rfl⟩ | ⟨d, hd, rfl, rfl⟩⟩
    · exact .inl ⟨rfl, f, ⟨r, hr, hf⟩, t, ht, rfl⟩
    · exact .inr ⟨rfl, r.context, d, ⟨r, hr, d, hd, rfl, rfl⟩, rfl⟩
  · rintro (⟨rfl, f, ⟨r, hr, hf⟩, t, ht, rfl⟩ | ⟨rfl, c, d, ⟨r, hr, d, hd, rfl, rfl⟩, rfl⟩)
    · exact ⟨r, hr, .inl ⟨f, hf, t, ht, rfl, rfl⟩⟩
    · exact ⟨r, hr, .inr ⟨d, hd, rfl, rfl⟩⟩

theorem mem_flatMap_bodyNoted_iff {type? : NodeId → Option TypeId} {n : NodeId} {k : NoteKind} :
    (n, k) ∈ p.readings.flatMap (Reading.bodyNoted type?) ↔
      (k = .expr ∧ ∃ c d, (c, d) ∈ p.kept ∧ ∃ e ∈ d.body.live (Expr.diverges type?), e.id = n) ∨
      (k = .fnDef false ∧ ∃ c d, (c, d) ∈ p.kept ∧ d.node.id = n) := by
  simp only [Reading.bodyNoted, kept, List.mem_flatMap, List.mem_append, List.mem_map,
    List.mem_singleton, Prod.mk.injEq]
  constructor
  · rintro ⟨r, hr, d, hd, ⟨e, he, rfl, rfl⟩ | ⟨rfl, rfl⟩⟩
    · exact .inl ⟨rfl, r.context, d, ⟨r, hr, d, hd, rfl, rfl⟩, e, he, rfl⟩
    · exact .inr ⟨rfl, r.context, d, ⟨r, hr, d, hd, rfl, rfl⟩, rfl⟩
  · rintro (⟨rfl, c, d, ⟨r, hr, d, hd, rfl, rfl⟩, e, he, rfl⟩ |
      ⟨rfl, c, d, ⟨r, hr, d, hd, rfl, rfl⟩, rfl⟩)
    · exact ⟨r, hr, d, hd, .inl ⟨e, he, rfl, rfl⟩⟩
    · exact ⟨r, hr, d, hd, .inr ⟨rfl, rfl⟩⟩

/-- What the artifact lacks is its name or its kind. -/
theorem issue_of_mem_outputFindings {o : Output} {f : Finding}
    (h : f ∈ Analysis.outputFindings p o) :
    f.issue = .missingOutputName ∨ f.issue = .missingOutputKind := by
  rw [Analysis.outputFindings, List.mem_append] at h
  rcases h with h | h
  · split at h
    · exact .inl (by rw [List.mem_singleton.mp h])
    · cases h
  · split at h
    · exact .inr (by rw [List.mem_singleton.mp h])
    · cases h

/-- Neither the bodies nor the demand for an artifact add what is found in signatures only. -/
theorem filter_rest_eq_nil
    (ha : (Analysis.initial options).readFiles p.entry.toNat 0 p.files = .ok a)
    {q : Finding → Bool} (hq : ∀ f, q f → f.issue.ofBody = false ∧
      f.issue ≠ .missingOutputName ∧ f.issue ≠ .missingOutputKind) :
    ((a.checkFiles 0 p.files).findings ++ Analysis.outputFindings p a.output).filter q = [] := by
  rw [List.filter_eq_nil_iff]
  intro f hf hqf
  obtain ⟨hbody, hname, hkind⟩ := hq f hqf
  rcases List.mem_append.mp hf with hf | hf
  · have hof := ((ensures_checkFiles ha).findings f hf).ofBody
    rw [hbody] at hof
    cases hof
  · exact (issue_of_mem_outputFindings hf).elim hname hkind

/-- Checking bodies reports no redefinition, and neither does the demand for an artifact. -/
theorem filter_findings_result
    (ha : (Analysis.initial options).readFiles p.entry.toNat 0 p.files = .ok a) :
    (a.findings ++ (a.checkFiles 0 p.files).findings ++
        Analysis.outputFindings p a.output).filter Finding.isRedefinition =
      p.redefinitions.map fun x => ⟨x.1.path, x.2.node.pos, .redefinition x.2.proto.name⟩ := by
  have hrest := filter_rest_eq_nil (q := Finding.isRedefinition) ha fun f hf => by
    unfold Finding.isRedefinition at hf
    split at hf
    · next heq => simp [heq, Issue.ofBody]
    · cases hf
  rw [List.append_assoc, List.filter_append, hrest, List.append_nil,
    filter_findings_eq (signatures_ok ha).2, redefinitions, List.map_flatMap]
  refine List.flatMap_congr fun r _ => ?_
  rw [List.map_map]
  rfl

/-- Where no node is met twice no node is noted twice, and the notes of a result cover its program
exactly. -/
theorem analyze_covers (p : Program) (options : BuildOptions) (h : p.ids.Nodup) :
    (∀ n, p.analyze options ≠ .error (.alreadyAnnotated n)) ∧
      ∀ b, p.analyze options = .ok b → p.Covered b := by
  refine ⟨analyze_ne_alreadyAnnotated h, fun b hb => ?_⟩
  obtain ⟨a, notes, ha, hnotes, hok, rfl⟩ := analyze_eq_ok_iff.mp hb
  obtain ⟨hfiled, hruns⟩ := signatures_ok ha
  have hall := Notes.recordedAll hnotes
  have hagrees : Scope.Agrees notes.exprType? (a.checkFiles 0 p.files).notes := by
    intro n t hn
    rw [Notes.exprType?, hall.get? _ hn]
  obtain ⟨hnoted, hkept⟩ := noted_of_checkFiles h hruns hfiled.sound.distinct hok hagrees
  have hdistinct := hall.distinct hfiled.sound.distinct
  have hwritten : ∀ n k, (n, k) ∈ notes.written ↔ (n, k) ∈ p.readings.flatMap Reading.noted ∨
      (n, k) ∈ p.readings.flatMap (Reading.bodyNoted notes.exprType?) := by
    intro n k
    rw [hall.written, hnoted, ← List.mem_append]
    exact iff_of_eq (congrArg (fun l => (n, k) ∈ l ++ _) hruns.written)
  have hmem := fun c d => mem_kept_iff_not_mem_redefinitions (c := c) (d := d) h
  simp only [mem_flatMap_noted_iff, mem_flatMap_bodyNoted_iff, hmem] at hwritten
  refine ⟨filter_findings_result ha, fun f => ?_, fun n => ?_, fun n => ?_, fun n => ?_,
    fun c d hd => ?_, fun c d hd hnot => ?_⟩
  · rw [functions_eq hruns, mem_functions_iff]
    simp [hmem, and_assoc]
  · rw [Notes.exists_typeRef_iff hdistinct, hwritten, functions_eq hruns]
    simp
  · rw [Notes.exists_expr_iff hdistinct, hwritten]
    simp [and_assoc]
  · simp only [Notes.exists_fnDef_iff hdistinct, hwritten]
    constructor
    · rintro ⟨skip, (⟨hk, -⟩ | ⟨-, c, d, hd, rfl⟩) | ⟨hk, -⟩ | ⟨-, c, d, hd, rfl⟩⟩
      · cases hk
      · exact ⟨c, d, mem_decls_of_mem_redefinitions hd, rfl⟩
      · cases hk
      · exact ⟨c, d, hd.1, rfl⟩
    · rintro ⟨c, d, hd, rfl⟩
      by_cases hred : (c, d) ∈ p.redefinitions
      · exact ⟨true, .inl (.inr ⟨rfl, c, d, hred, rfl⟩)⟩
      · exact ⟨false, .inr (.inr ⟨rfl, c, d, ⟨hd, hred⟩, rfl⟩)⟩
  · obtain ⟨r, hr, hred, -⟩ := mem_redefinitions_iff.mp hd
    exact hall.within _ _ (hruns.skipped r hr d hred)
  · obtain ⟨r, hr, hd, -⟩ := mem_kept_iff.mp ((hmem c d).mpr ⟨hd, hnot⟩)
    obtain ⟨t, ht, hnote⟩ := hkept r hr d hd
    exact ⟨t, ht, hall.get? _ hnote⟩

theorem sample_covered : ∃ b, sample.analyze .none = .ok b ∧ sample.Covered b := by
  obtain ⟨b, hb, -⟩ := sample_ok
  exact ⟨b, hb, (analyze_covers sample .none (by decide)).2 b hb⟩

end

end Program

end Sema
