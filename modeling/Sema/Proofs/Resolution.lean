import Sema.Analysis.Signatures
import Sema.Proofs.Notes
import Sema.Proofs.TypeTable

/-!
How written types are resolved: each of their nodes gets one note, the table only grows, and nothing
else of the analysis changes but its findings. Resolving fails only where a note would be written
twice.
-/

namespace Sema

namespace TypeRef

/-- The note that a written type gets when it is resolved. -/
def noted (t : TypeRef) : NodeId × NoteKind := (t.node.id, .typeRef)

/-- What is wrong with a written type. -/
def findings (path : String) : TypeRef → List Finding
  | .named node name =>
      if Ty.ofName name = .invalid then [⟨path, node.pos, .unknownType name⟩] else []
  | .pointer node _ child =>
      child.findings path ++
        if child.ty = .unreachable then [⟨path, node.pos, .pointerToUnreachable⟩] else []

theorem findings_eq_nil_iff {path : String} {t : TypeRef} : t.findings path = [] ↔ t.IsProper := by
  induction t with
  | named node name =>
    rw [findings, IsProper, ← Ty.ofName_ne_invalid_iff]
    split <;> simp_all
  | pointer node m child ih =>
    rw [findings, IsProper, List.append_eq_nil_iff, ih]
    split <;> simp_all

end TypeRef

def Finding.isRedefinition (f : Finding) : Bool :=
  match f.issue with
  | .redefinition _ => true
  | _ => false

/-- Whether a finding is about a written type. -/
def Finding.ofType (f : Finding) : Bool :=
  match f.issue with
  | .unknownType _ => true
  | .pointerToUnreachable => true
  | _ => false

theorem Finding.ofType_eq_false_of_isRedefinition {f : Finding} (h : f.isRedefinition) :
    f.ofType = false := by
  unfold isRedefinition at h
  split at h
  · next hf => rw [ofType, hf]
  · cases h

theorem TypeRef.ofType_of_mem_findings {path : String} {t : TypeRef} {f : Finding}
    (h : f ∈ t.findings path) : f.ofType := by
  induction t with
  | named node name =>
    rw [findings] at h
    split at h
    · rw [List.mem_singleton.mp h]
      rfl
    · cases h
  | pointer node m child ih =>
    rw [findings, List.mem_append] at h
    rcases h with h | h
    · exact ih h
    · split at h
      · rw [List.mem_singleton.mp h]
        rfl
      · cases h

/-- What is wrong with written types is not among other findings. -/
theorem TypeRef.filter_findings {q : Finding → Bool} (hq : ∀ f, q f → f.ofType = false)
    (path : String) (t : TypeRef) : (t.findings path).filter q = [] := by
  rw [List.filter_eq_nil_iff]
  intro f hf hqf
  exact absurd ((hq f hqf).symm.trans (ofType_of_mem_findings hf)) Bool.false_ne_true

/-- How findings are added: they are `fs` if names are plain, and the same in any case but for those
about written types. -/
def Finds (plain : Prop) (fs l l' : List Finding) : Prop :=
  ∃ gs, l' = l ++ gs ∧ (plain → gs = fs) ∧ gs.filter (!·.ofType) = fs.filter (!·.ofType)

namespace Finds

variable {plain plain' : Prop} {fs gs l l' l'' : List Finding}

theorem append (fs l : List Finding) : Finds plain fs l (l ++ fs) := ⟨fs, rfl, fun _ => rfl, rfl⟩

theorem refl (l : List Finding) : Finds plain [] l l := ⟨[], by simp, fun _ => rfl, rfl⟩

theorem trans (h : Finds plain fs l l') (h' : Finds plain' gs l' l'') :
    Finds (plain ∧ plain') (fs ++ gs) l l'' := by
  obtain ⟨xs, rfl, hxs, hxr⟩ := h
  obtain ⟨ys, rfl, hys, hyr⟩ := h'
  refine ⟨xs ++ ys, by rw [List.append_assoc], fun hp => by rw [hxs hp.1, hys hp.2], ?_⟩
  rw [List.filter_append, List.filter_append, hxr, hyr]

theorem congr (h : Finds plain fs l l') (hp : plain' → plain) (hf : fs = gs) :
    Finds plain' gs l l' := by
  obtain ⟨xs, hl, hxs, hxr⟩ := h
  exact ⟨xs, hl, fun hp' => hf ▸ hxs (hp hp'), hf ▸ hxr⟩

/-- The findings of plain names may be told otherwise. -/
theorem retell (h : Finds plain fs l l') (hf : plain → fs = gs)
    (hr : fs.filter (!·.ofType) = gs.filter (!·.ofType)) : Finds plain gs l l' := by
  obtain ⟨xs, hl, hxs, hxr⟩ := h
  exact ⟨xs, hl, fun hp => (hxs hp).trans (hf hp), hxr.trans hr⟩

theorem subset (h : Finds plain fs l l') : l ⊆ l' := by
  obtain ⟨gs, rfl, -⟩ := h
  exact List.subset_append_left l gs

/-- Findings that are not about written types are those told. -/
theorem filter_eq (h : Finds plain fs l l') {q : Finding → Bool}
    (hq : ∀ f, q f → f.ofType = false) : l'.filter q = l.filter q ++ fs.filter q := by
  obtain ⟨gs, rfl, -, hgs⟩ := h
  have hfilter : ∀ m : List Finding, (m.filter (!·.ofType)).filter q = m.filter q := by
    intro m
    rw [List.filter_filter]
    refine List.filter_congr fun f _ => ?_
    cases hf : q f with
    | false => rfl
    | true => rw [hq f hf]; rfl
  rw [List.filter_append, ← hfilter gs, hgs, hfilter]

end Finds

/-- Whether notes can be written for all nodes of a list. -/
def Notes.Clear (t : Notes) (l : List (NodeId × NoteKind)) : Prop :=
  ((t.written ++ l).map Prod.fst).Nodup

theorem Notes.Clear.left {t : Notes} {l r : List (NodeId × NoteKind)} (h : t.Clear (l ++ r)) :
    t.Clear l := by
  rw [Clear, ← List.append_assoc, List.map_append] at h
  exact h.of_append_left

theorem Notes.Clear.vacant {t : Notes} {l r : List (NodeId × NoteKind)} {n : NodeId} {k : NoteKind}
    (h : t.Clear (l ++ (n, k) :: r)) : n ∉ (t.written ++ l).map Prod.fst := by
  rw [Clear, ← List.append_assoc, List.map_append, List.map_cons] at h
  exact fun hn => List.disjoint_of_nodup_append h hn (List.mem_cons_self ..)

namespace Analysis

/-- Whether the types and the notes of `a` are all in `b`. -/
structure Within (a b : Analysis) : Prop where
  types : a.types.entries <+: b.types.entries
  notes : a.notes.Within b.notes

/-- Whether all types in notes are in the table, and none is invalid unless something was found. -/
def NotesValid (a : Analysis) : Prop :=
  ∀ n x, a.notes.get? n = some x → ∀ i ∈ x.types,
    a.types.Has i ∧ (a.findings = [] → i ≠ .invalid)

/-- Whether a written type has its note, with the type it stands for. What never completes is told from
all else even where names are not plain. -/
def Resolves (a : Analysis) (t : TypeRef) : Prop :=
  ∃ i, a.notes.get? t.node.id = some (.typeRef i) ∧ a.types.Has i ∧
    (i = .unreachable ↔ t.ty = .unreachable) ∧ (t.IsPlain → a.types.Denotes i t.ty)

/-- Whether a pointer among written types leads to a name that is reported to be unknown. -/
def Blames (a : Analysis) (ps : List TypeRef) : Prop :=
  ∃ node m child name, TypeRef.pointer node m (.named child name) ∈ ps ∧
    ∃ path, ⟨path, child.pos, .unknownType name⟩ ∈ a.findings

/-- What the resolving of written types does to an analysis: `ps` are the nodes noted, and `fs` is what
is found if the names are `plain`. -/
structure Reads (ps : List TypeRef) (plain : Prop) (fs : List Finding) (a b : Analysis) : Prop where
  rest : b = { a with types := b.types, notes := b.notes, findings := b.findings }
  within : a.Within b
  types : b.types.WellFormed
  valid : a.NotesValid → b.NotesValid
  distinct : a.notes.Distinct → b.notes.Distinct
  written : b.notes.written = a.notes.written ++ ps.map TypeRef.noted
  resolved : ∀ t ∈ ps, b.Resolves t
  findings : Finds plain fs a.findings b.findings
  blamed : b.types.PointsToInvalid → a.types.PointsToInvalid ∨ b.Blames ps

theorem Within.refl (a : Analysis) : a.Within a := ⟨List.prefix_refl _, .refl _⟩

theorem Within.trans {a b c : Analysis} (h : a.Within b) (h' : b.Within c) : a.Within c :=
  ⟨h.types.trans h'.types, h.notes.trans h'.notes⟩

theorem Resolves.mono {a b : Analysis} {t : TypeRef} (h : a.Resolves t) (hw : a.Within b) :
    b.Resolves t := by
  obtain ⟨i, hi, hhas, hun, hty⟩ := h
  exact ⟨i, hw.notes _ _ hi, hhas.mono hw.types, hun, fun hp => (hty hp).mono hw.types⟩

theorem Blames.mono {a b : Analysis} {ps qs : List TypeRef} (h : a.Blames ps) (hp : ps ⊆ qs)
    (hf : a.findings ⊆ b.findings) : b.Blames qs := by
  obtain ⟨node, m, child, name, hmem, path, hfound⟩ := h
  exact ⟨node, m, child, name, hp hmem, path, hf hfound⟩

theorem NotesValid.mono {a : Analysis} (h : a.NotesValid) {t : TypeTable}
    (ht : a.types.entries <+: t.entries) : NotesValid { a with types := t } :=
  fun n x hx i hi => (h n x hx i hi).imp_left (·.mono ht)

theorem NotesValid.report {a : Analysis} (h : a.NotesValid) (fs : List Finding) :
    NotesValid { a with findings := a.findings ++ fs } :=
  fun n x hx i hi => (h n x hx i hi).imp_right fun hne he => hne (List.append_eq_nil_iff.mp he).1

/-! ### Single steps -/

theorem record_eq_ok {a b : Analysis} {n : NodeId} {x : Note} :
    a.record n x = .ok b ↔ ∃ u, a.notes.record n x = .ok u ∧ b = { a with notes := u } := by
  rw [record, map_eq_ok_iff]
  simp only [eq_comm]

theorem record_eq_error {a : Analysis} {n : NodeId} {x : Note} {e : AnalysisError}
    (h : a.record n x = .error e) :
    e = .alreadyAnnotated n ∧ n ∈ a.notes.written.map Prod.fst := by
  rw [record] at h
  cases hr : a.notes.record n x with
  | ok u => simp [hr, Except.map] at h
  | error e' =>
    rw [hr] at h
    cases h
    obtain ⟨rfl, hn⟩ := Notes.record_eq_error hr
    exact ⟨rfl, not_not.mp (mt Notes.get?_eq_none_iff.mpr hn)⟩

namespace Reads

variable {ps qs : List TypeRef} {plain plain' : Prop} {fs gs : List Finding} {a b c : Analysis}

theorem refl (ha : a.types.WellFormed) : Reads [] plain [] a a where
  rest := rfl
  within := .refl a
  types := ha
  valid := id
  distinct := id
  written := by simp
  resolved := by simp
  findings := .refl _
  blamed := .inl

theorem trans (h : Reads ps plain fs a b) (h' : Reads qs plain' gs b c) :
    Reads (ps ++ qs) (plain ∧ plain') (fs ++ gs) a c where
  rest := by
    have h1 := h.rest
    have h2 := h'.rest
    rw [h1] at h2
    exact h2
  within := h.within.trans h'.within
  types := h'.types
  valid := fun ha => h'.valid (h.valid ha)
  distinct := fun ha => h'.distinct (h.distinct ha)
  written := by rw [h'.written, h.written, List.map_append, List.append_assoc]
  resolved := by
    intro t ht
    rcases List.mem_append.mp ht with ht | ht
    · exact (h.resolved t ht).mono h'.within
    · exact h'.resolved t ht
  findings := h.findings.trans h'.findings
  blamed := by
    intro hc
    rcases h'.blamed hc with hb | hqs
    · rcases h.blamed hb with ha | hps
      · exact .inl ha
      · exact .inr (hps.mono (List.subset_append_left ps qs) h'.findings.subset)
    · exact .inr (hqs.mono (List.subset_append_right ps qs) fun _ hf => hf)

theorem congr (h : Reads ps plain fs a b) (hp : plain' → plain) (hf : fs = gs) :
    Reads ps plain' gs a b :=
  { h with findings := h.findings.congr hp hf }

theorem retell (h : Reads ps plain fs a b) (hf : plain → fs = gs)
    (hr : fs.filter (!·.ofType) = gs.filter (!·.ofType)) : Reads ps plain gs a b :=
  { h with findings := h.findings.retell hf hr }

theorem report (h : Reads ps plain fs a b) (gs : List Finding) :
    Reads ps plain (fs ++ gs) a { b with findings := b.findings ++ gs } where
  rest := by
    have h1 := h.rest
    rw [h1]
  within := ⟨h.within.types, h.within.notes⟩
  types := h.types
  valid := fun ha => (h.valid ha).report gs
  distinct := h.distinct
  written := h.written
  resolved := h.resolved
  findings := (h.findings.trans (.append gs b.findings)).congr (fun hp => ⟨hp, hp⟩) rfl
  blamed := fun hb => (h.blamed hb).imp_right
    (·.mono (fun _ hp => hp) (List.subset_append_left _ _))

/-- Resolving sees only types, notes and findings. -/
theorem transport (h : Reads ps plain fs a b) (c : Analysis) (ht : c.types = a.types)
    (hn : c.notes = a.notes) (hf : c.findings = a.findings) :
    Reads ps plain fs c { c with types := b.types, notes := b.notes, findings := b.findings } where
  rest := rfl
  within := ⟨ht ▸ h.within.types, hn ▸ h.within.notes⟩
  types := h.types
  valid := fun hc => h.valid (by rwa [NotesValid, ← ht, ← hn, ← hf])
  distinct := fun hc => h.distinct (hn ▸ hc)
  written := hn ▸ h.written
  resolved := h.resolved
  findings := hf ▸ h.findings
  blamed := ht ▸ h.blamed

/-- A type is noted once the table holds it. -/
theorem note (h : Reads ps plain fs a b) {t : TypeRef} {i : TypeId} {types : TypeTable}
    (htypes : types.WellFormed) (hpre : b.types.entries <+: types.entries)
    (hblamed : types.PointsToInvalid → b.types.PointsToInvalid ∨ b.Blames (ps ++ [t]))
    (hi : types.Has i) (hne : b.findings = [] → i ≠ .invalid)
    (hun : i = .unreachable ↔ t.ty = .unreachable) (hty : t.IsPlain → types.Denotes i t.ty)
    (hr : record { b with types := types } t.node.id (.typeRef i) = .ok c) :
    Reads (ps ++ [t]) plain fs a c ∧ c.notes.get? t.node.id = some (.typeRef i) ∧
      c.findings = b.findings := by
  obtain ⟨u, hu, rfl⟩ := record_eq_ok.mp hr
  have hrec := Notes.recorded hu
  have hget : u.get? t.node.id = some (.typeRef i) := by rw [hrec.get?, if_pos rfl]
  have hw : b.Within { b with types := types, notes := u } := ⟨hpre, hrec.within⟩
  refine ⟨⟨?_, h.within.trans hw, htypes, ?_, fun ha => hrec.distinct (h.distinct ha), ?_, ?_,
    h.findings, ?_⟩, hget, rfl⟩
  · have h1 := h.rest
    rw [h1]
  · intro ha n x hx j hj
    simp only [hrec.get?] at hx
    split at hx
    · obtain rfl := Option.some.inj hx
      rw [Note.types, List.mem_singleton] at hj
      exact hj ▸ ⟨hi, hne⟩
    · exact (h.valid ha).mono hpre n x hx j hj
  · rw [hrec.written, h.written, List.map_append, List.append_assoc]
    rfl
  · intro v hv
    rcases List.mem_append.mp hv with hv | hv
    · exact (h.resolved v hv).mono hw
    · rw [List.mem_singleton] at hv
      subst hv
      exact ⟨i, hget, hi, hun, hty⟩
  · intro hinv
    rcases hblamed hinv with hb | hps
    · exact (h.blamed hb).imp_right (·.mono (List.subset_append_left ps [t]) fun _ hf => hf)
    · exact .inr hps

end Reads

theorem typeNamed_spec {a : Analysis} (ha : a.types.WellFormed) (path : String) (node : Node)
    (name : String) : ∃ i fs,
      a.typeNamed path node.pos name = (i, { a with findings := a.findings ++ fs }) ∧
      a.types.Has i ∧ (i = .invalid → fs = [⟨path, node.pos, .unknownType name⟩]) ∧
      fs.filter (!·.ofType) = [] ∧ (i = .unreachable ↔ Ty.ofName name = .unreachable) ∧
      (name.toList.head? ≠ some '*' →
        a.types.Denotes i (.ofName name) ∧ fs = (TypeRef.named node name).findings path) := by
  unfold typeNamed
  cases hl : a.types.lookup? name with
  | some i =>
    refine ⟨i, [], by simp, ha.has_of_lookup? hl,
      fun hi => absurd hi (ha.ne_invalid_of_lookup? hl), rfl,
      ha.eq_unreachable_iff_of_lookup? hl, fun hn => ?_⟩
    have hs := ha.lookup?_spec hn
    rw [hl] at hs
    exact ⟨hs.1, by rw [TypeRef.findings, if_neg hs.2]⟩
  | none =>
    have hun : TypeId.invalid = .unreachable ↔ Ty.ofName name = .unreachable := by
      refine iff_of_false (by decide) fun hty => ?_
      have hplain : name.toList.head? ≠ some '*' := by
        rw [Ty.ofName_eq_unreachable_iff.mp hty]
        decide
      have hs := ha.lookup?_spec hplain
      rw [hl, hty] at hs
      cases hs
    refine ⟨.invalid, [⟨path, node.pos, .unknownType name⟩], rfl, ha.has_builtin (by decide),
      fun _ => rfl, rfl, hun, fun hn => ?_⟩
    have hs := ha.lookup?_spec hn
    rw [hl] at hs
    rw [TypeRef.findings, hs, if_pos rfl]
    exact ⟨.invalid, rfl⟩

theorem pointerTo_spec {a : Analysis} (ha : a.types.WellFormed) {c : TypeId} (hc : a.types.Has c)
    (m : Mutability) : ∃ i u, a.pointerTo m c = .ok (i, { a with types := u }) ∧ u.WellFormed ∧
      a.types.entries <+: u.entries ∧ (u.PointsToInvalid → a.types.PointsToInvalid ∨ c = .invalid) ∧
      ∃ n, u.get? i = some (.pointer m c n) := by
  obtain ⟨i, u, hp, hu⟩ := ha.pointerTo?_spec hc m
  exact ⟨i, u, by rw [pointerTo, hp], hu⟩

/-! ### Written types -/

/-- An analysis after the check of what a pointer leads to. -/
def checkPointee (path : String) (pos : Position) (c : TypeId) (a : Analysis) : Analysis :=
  if c = .unreachable then a.report path pos .pointerToUnreachable else a

theorem checkPointee_eq (path : String) (pos : Position) (c : TypeId) (a : Analysis) :
    a.checkPointee path pos c = { a with findings := a.findings ++
      if c = .unreachable then [⟨path, pos, .pointerToUnreachable⟩] else [] } := by
  unfold checkPointee
  split <;> simp [report]

theorem resolveType_pointer (path : String) (a : Analysis) (node : Node) (m : Mutability)
    (child : TypeRef) : a.resolveType path (.pointer node m child) =
      if a.notes.contains node.id then .error (.alreadyAnnotated node.id)
      else a.resolveType path child >>= fun r =>
        (r.2.checkPointee path node.pos r.1).pointerTo m r.1 >>= fun q =>
          q.2.record node.id (.typeRef q.1) >>= fun b => pure (q.1, b) := by
  rw [resolveType]
  split <;> rfl

/-- What resolving a written type does. Only an unknown name gives the invalid type. -/
theorem resolveType_reads {path : String} {t : TypeRef} {a b : Analysis} {i : TypeId}
    (ha : a.types.WellFormed) (h : a.resolveType path t = .ok (i, b)) :
    Reads t.parts t.IsPlain (t.findings path) a b ∧ b.notes.get? t.node.id = some (.typeRef i) ∧
      (i = .invalid → ∃ node name, t = .named node name ∧
        ⟨path, node.pos, .unknownType name⟩ ∈ b.findings) := by
  induction t generalizing a b i with
  | named node name =>
    obtain ⟨j, fs, hn, hj, hinv, hother, hun, hplain⟩ := typeNamed_spec ha path node name
    rw [resolveType, hn] at h
    simp only [bind_eq_ok_iff, pure_eq_ok_iff, Prod.mk.injEq] at h
    obtain ⟨c, hc, rfl, rfl⟩ := h
    have h1 : Reads [] (name.toList.head? ≠ some '*') ([] ++ fs) a
        { a with findings := a.findings ++ fs } := (Reads.refl ha).report fs
    have h2 := h1.retell (fun hp => (hplain hp).2)
      (hother.trans (TypeRef.filter_findings (by simp) path _).symm)
    have hfound : a.findings ++ fs = [] → j ≠ .invalid := by
      intro he hj
      rw [hinv hj] at he
      exact List.cons_ne_nil _ _ (List.append_eq_nil_iff.mp he).2
    obtain ⟨h3, hnote, hsame⟩ := h2.note (t := .named node name) h2.types (List.prefix_refl _) .inl hj
      hfound hun (fun hp => (hplain hp).1) hc
    refine ⟨h3, hnote, fun hj => ⟨node, name, rfl, ?_⟩⟩
    rw [hsame, hinv hj]
    exact List.mem_append_right _ (List.mem_singleton_self _)
  | pointer node m child ih =>
    rw [resolveType_pointer] at h
    split at h
    · cases h
    · simp only [bind_eq_ok_iff, pure_eq_ok_iff, Prod.mk.injEq] at h
      obtain ⟨⟨c, a1⟩, hc, ⟨j, a2⟩, hp, a3, hr, rfl, rfl⟩ := h
      obtain ⟨h1, hnote, hinv⟩ := ih ha hc
      -- the child's note tells its type
      obtain ⟨c', hc', hhas, -, hden⟩ := h1.resolved child child.mem_parts_self
      obtain rfl : c' = c := by simpa [hnote, eq_comm] using hc'
      rw [checkPointee_eq] at hp
      have h2 := h1.report
        (if c' = .unreachable then [⟨path, node.pos, .pointerToUnreachable⟩] else [])
      obtain ⟨k, u, hpt, hu, hpre, hold, n, hk⟩ := pointerTo_spec h2.types hhas m
      rw [hpt] at hp
      cases hp
      -- a new pointer to the invalid type is this one, and its child is an unknown name
      have hblamed : u.PointsToInvalid → a1.types.PointsToInvalid ∨
          a1.Blames (child.parts ++ [.pointer node m child]) := by
        intro hpoints
        rcases hold hpoints with hb | hc'
        · exact .inl hb
        · obtain ⟨inner, name, rfl, hfound⟩ := hinv hc'
          exact .inr ⟨node, m, inner, name, List.mem_append_right _ (List.mem_singleton_self _), path,
            hfound⟩
      obtain ⟨h3, hnote', -⟩ := h2.note (t := .pointer node m child) hu hpre
        (fun hp => (hblamed hp).imp_right (·.mono (List.Subset.refl _) (List.subset_append_left _ _)))
        (TypeTable.has_iff_get?.mpr ⟨_, hk⟩) (fun _ => hu.ne_invalid_of_pointer hk)
        (iff_of_false (hu.ne_unreachable_of_pointer hk) (by simp [TypeRef.ty]))
        (fun hp => .pointer hk ((hden hp).mono hpre)) hr
      refine ⟨h3.retell (fun hp => ?_) ?_, hnote', fun hk' => (hu.ne_invalid_of_pointer hk hk').elim⟩
      · have hiff := h1.types.denotes_iff_eq (hden hp) .unreachable
        simp only [TypeRef.findings, hiff]
      · rw [TypeRef.filter_findings (by simp), List.filter_append,
          TypeRef.filter_findings (by simp)]
        split <;> rfl

/-- Resolving a written type fails only where a note is there already. -/
theorem resolveType_error {path : String} {t : TypeRef} {a : Analysis} {e : AnalysisError}
    (ha : a.types.WellFormed) (h : a.resolveType path t = .error e) :
    (∃ n, e = .alreadyAnnotated n) ∧ ¬ a.notes.Clear (t.parts.map TypeRef.noted) := by
  induction t generalizing a e with
  | named node name =>
    obtain ⟨j, fs, hn, -⟩ := typeNamed_spec ha path node name
    rw [resolveType, hn] at h
    simp only [bind_eq_error_iff, pure, Except.pure, reduceCtorEq, and_false, exists_false,
      or_false] at h
    obtain ⟨rfl, hmem⟩ := record_eq_error h
    refine ⟨⟨_, rfl⟩, fun hclear => ?_⟩
    have hv := Notes.Clear.vacant (l := []) hclear
    rw [List.append_nil] at hv
    exact hv hmem
  | pointer node m child ih =>
    rw [resolveType_pointer] at h
    rw [TypeRef.parts, List.map_append, List.map_singleton, TypeRef.noted, TypeRef.node]
    split at h
    · next hc =>
      cases h
      refine ⟨⟨_, rfl⟩, fun hclear => hclear.vacant ?_⟩
      have hsome : a.notes.get? node.id ≠ none := Option.isSome_iff_ne_none.mp hc
      rw [List.map_append, List.mem_append]
      exact .inl (not_not.mp (mt Notes.get?_eq_none_iff.mpr hsome))
    · simp only [bind_eq_error_iff, pure, Except.pure, reduceCtorEq, and_false, exists_false,
        or_false] at h
      rcases h with h | ⟨⟨c, a1⟩, hc, h⟩
      · exact ⟨(ih ha h).1, fun hclear => (ih ha h).2 hclear.left⟩
      · obtain ⟨h1, hnote, -⟩ := resolveType_reads ha hc
        obtain ⟨c', hc', hhas, -⟩ := h1.resolved child child.mem_parts_self
        obtain rfl : c' = c := by simpa [hnote, eq_comm] using hc'
        rw [checkPointee_eq] at h
        have h2 := h1.report
          (if c' = .unreachable then [⟨path, node.pos, .pointerToUnreachable⟩] else [])
        obtain ⟨k, u, hpt, -⟩ := pointerTo_spec h2.types hhas m
        rw [hpt] at h
        simp only [reduceCtorEq, Except.ok.injEq, exists_eq_left', false_or] at h
        obtain ⟨rfl, hmem⟩ := record_eq_error h
        refine ⟨⟨_, rfl⟩, fun hclear => hclear.vacant ?_⟩
        rw [← h1.written]
        exact hmem

/-! ### Signatures -/

end Analysis

/-- The finding of a directive that stands where it has no meaning. -/
def Directive.refusal (path : String) (d : Directive) : Finding :=
  ⟨path, d.node.pos, .invalidDirective d.name⟩

namespace Prototype

/-- The nodes of the types of a signature that get a note. -/
def parts (p : Prototype) : List TypeRef := p.types.flatMap TypeRef.parts

/-- Whether no name in a signature looks like a pointer. -/
def IsPlain (p : Prototype) : Prop := ∀ t ∈ p.types, t.IsPlain

instance (p : Prototype) : Decidable p.IsPlain :=
  inferInstanceAs (Decidable (∀ t ∈ p.types, t.IsPlain))

/-- What is wrong with a signature. -/
def findings (path : String) (p : Prototype) : List Finding :=
  p.directives.map (Directive.refusal path) ++
    p.types.flatMap (TypeRef.findings path)

end Prototype

namespace Analysis

theorem foldl_reportDirective (path : String) (ds : List Directive) (a : Analysis) :
    ds.foldl (reportDirective path) a =
      { a with findings := a.findings ++ ds.map (Directive.refusal path) } := by
  induction ds generalizing a with
  | nil => simp
  | cons d ds ih =>
    rw [List.foldl_cons, ih]
    simp [reportDirective, report, Directive.refusal]

/-- A signature is resolved type by type, its result last. -/
theorem resolvePrototype_eq (path : String) (a : Analysis) (p : Prototype) :
    a.resolvePrototype path p =
      p.types.foldlM (fun a t => a.resolveType path t >>= fun r => pure r.2)
        { a with findings := a.findings ++ p.directives.map (Directive.refusal path) } := by
  rw [resolvePrototype, foldl_reportDirective, Prototype.types, List.foldlM_append, List.foldlM_map]
  refine bind_congr fun b => ?_
  rw [List.foldlM_cons]
  simp only [List.foldlM_nil, bind_pure]

section

variable {path : String} {a b : Analysis} {ts : List TypeRef} {t : TypeRef}

theorem reads_append (h : Reads (ts.flatMap TypeRef.parts) (∀ t ∈ ts, t.IsPlain)
    (ts.flatMap (TypeRef.findings path)) a b) {c : Analysis}
    (hc : (b.resolveType path t >>= fun r => pure r.2) = .ok c) :
    Reads ((ts ++ [t]).flatMap TypeRef.parts) (∀ u ∈ ts ++ [t], u.IsPlain)
      ((ts ++ [t]).flatMap (TypeRef.findings path)) a c := by
  simp only [bind_eq_ok_iff, pure_eq_ok_iff] at hc
  obtain ⟨⟨i, c'⟩, hc, rfl⟩ := hc
  have := h.trans (resolveType_reads h.types hc).1
  simp only [List.flatMap_append, List.flatMap_singleton]
  exact this.congr (fun hp => ⟨fun u hu => hp u (List.mem_append_left _ hu), hp t (by simp)⟩) rfl

end

/-- What resolving a signature does. -/
theorem resolvePrototype_reads {path : String} {p : Prototype} {a b : Analysis}
    (ha : a.types.WellFormed) (h : a.resolvePrototype path p = .ok b) :
    Reads p.parts p.IsPlain (p.findings path) a b := by
  rw [resolvePrototype_eq] at h
  have h0 := (@Reads.refl True a ha).report (p.directives.map (Directive.refusal path))
  have h1 := foldlM_ok
    (fun ts b => Reads (ts.flatMap TypeRef.parts) (∀ t ∈ ts, t.IsPlain)
      (ts.flatMap (TypeRef.findings path)) _ b)
    (fun ts t b c hb hc => reads_append hb hc) p.types [] _ b (Reads.refl h0.types) h
  exact (h0.trans h1).congr (fun hp => ⟨trivial, hp⟩) rfl

/-- Resolving a signature fails only where a note is there already. -/
theorem resolvePrototype_error {path : String} {p : Prototype} {a : Analysis} {e : AnalysisError}
    (ha : a.types.WellFormed) (h : a.resolvePrototype path p = .error e) :
    (∃ n, e = .alreadyAnnotated n) ∧ ¬ a.notes.Clear (p.parts.map TypeRef.noted) := by
  rw [resolvePrototype_eq] at h
  have h0 := (@Reads.refl True a ha).report (p.directives.map (Directive.refusal path))
  obtain ⟨seen, t, rest, c, htypes, hc, ht⟩ := foldlM_error
    (fun ts b => Reads (ts.flatMap TypeRef.parts) (∀ t ∈ ts, t.IsPlain)
      (ts.flatMap (TypeRef.findings path)) _ b)
    (fun ts t b c hb hc => reads_append hb hc) p.types [] _ (Reads.refl h0.types) h
  simp only [bind_eq_error_iff, pure, Except.pure, reduceCtorEq, and_false, exists_false,
    or_false] at ht
  obtain ⟨he, hclear⟩ := resolveType_error hc.types ht
  refine ⟨he, fun h => hclear ?_⟩
  rw [Prototype.parts, htypes, List.flatMap_append, List.flatMap_cons, List.map_append,
    List.map_append, ← List.append_assoc] at h
  have h' := h.left
  rw [Notes.Clear, ← List.append_assoc] at h'
  rw [Notes.Clear, hc.written]
  exact h'

end Analysis

end Sema
