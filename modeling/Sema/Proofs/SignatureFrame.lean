import Sema.Proofs.SignatureStep

/-!
Earlier notes and findings do not matter to signatures. What can be read on top of them is read the
same without them: the same types and functions come of it, and the same is written and found.
-/

namespace Sema

namespace Analysis

/-- An analysis on top of notes and findings that were there before its own. -/
def atop (a : Analysis) (t : Notes) (fs : List Finding) : Analysis :=
  { a with notes := ⟨a.notes.slots ++ t.slots⟩, findings := fs ++ a.findings }

/-- An analysis with neither notes nor findings. -/
def bare (a : Analysis) : Analysis := { a with notes := .empty, findings := [] }

theorem atop_bare (a : Analysis) : a.bare.atop a.notes a.findings = a := by
  simp [atop, bare, Notes.empty]

variable {t : Notes} {fs : List Finding} {a b : Analysis}

theorem record_atop {n : NodeId} {x : Note} (h : (a.atop t fs).record n x = .ok b) :
    ∃ b', a.record n x = .ok b' ∧ b = b'.atop t fs := by
  obtain ⟨u, hu, rfl⟩ := record_eq_ok.mp h
  obtain ⟨hn, rfl⟩ := Notes.record_eq_ok.mp hu
  have hvacant : a.notes.get? n = none := by
    rw [Notes.get?, atop, List.lookup_append, Option.or_eq_none_iff] at hn
    exact hn.1
  exact ⟨_, record_eq_ok.mpr ⟨_, Notes.record_eq_ok.mpr ⟨hvacant, rfl⟩, rfl⟩, rfl⟩

theorem report_atop (path : String) (pos : Position) (issue : Issue) :
    (a.atop t fs).report path pos issue = (a.report path pos issue).atop t fs := by
  simp [atop, report]

theorem typeNamed_atop (path : String) (pos : Position) (name : String) :
    (a.atop t fs).typeNamed path pos name =
      ((a.typeNamed path pos name).1, (a.typeNamed path pos name).2.atop t fs) := by
  have htypes : (a.atop t fs).types = a.types := rfl
  unfold typeNamed
  rw [htypes]
  cases a.types.lookup? name with
  | some i => rfl
  | none => rw [report_atop]

theorem pointerTo_atop {m : Mutability} {c i : TypeId}
    (h : (a.atop t fs).pointerTo m c = .ok (i, b)) :
    ∃ b', a.pointerTo m c = .ok (i, b') ∧ b = b'.atop t fs := by
  have htypes : (a.atop t fs).types = a.types := rfl
  unfold pointerTo at h ⊢
  rw [htypes] at h
  cases hp : a.types.pointerTo? m c with
  | none =>
    rw [hp] at h
    cases h
  | some r =>
    rw [hp] at h
    cases h
    exact ⟨_, rfl, rfl⟩

theorem checkPointee_atop (path : String) (pos : Position) (c : TypeId) :
    (a.atop t fs).checkPointee path pos c = (a.checkPointee path pos c).atop t fs := by
  unfold checkPointee
  split
  · exact report_atop path pos _
  · rfl

theorem resolveType_atop {path : String} {r : TypeRef} {i : TypeId}
    (h : (a.atop t fs).resolveType path r = .ok (i, b)) :
    ∃ b', a.resolveType path r = .ok (i, b') ∧ b = b'.atop t fs := by
  induction r generalizing a b i with
  | named node name =>
    rw [resolveType, typeNamed_atop] at h
    simp only [bind_eq_ok_iff, pure_eq_ok_iff, Prod.mk.injEq] at h
    obtain ⟨c, hc, rfl, rfl⟩ := h
    obtain ⟨c', hc', rfl⟩ := record_atop hc
    refine ⟨c', ?_, rfl⟩
    rw [resolveType]
    simp only [hc']
    rfl
  | pointer node m child ih =>
    rw [resolveType_pointer] at h ⊢
    split at h
    · cases h
    · next hnone =>
      simp only [bind_eq_ok_iff, pure_eq_ok_iff, Prod.mk.injEq] at h
      obtain ⟨⟨c, a1⟩, hc, ⟨j, a2⟩, hp, a3, hr, rfl, rfl⟩ := h
      obtain ⟨a1', hc', rfl⟩ := ih hc
      rw [checkPointee_atop] at hp
      obtain ⟨a2', hp', rfl⟩ := pointerTo_atop hp
      obtain ⟨a3', hr', rfl⟩ := record_atop hr
      have hvacant : ¬ a.notes.contains node.id := by
        rw [Notes.contains, Notes.get?, atop, List.lookup_append] at hnone
        rw [Notes.contains, Notes.get?]
        cases hl : a.notes.slots.lookup node.id with
        | none => exact Bool.false_ne_true
        | some x =>
          rw [hl] at hnone
          exact absurd rfl hnone
      rw [if_neg hvacant]
      simp only [bind_eq_ok_iff, pure_eq_ok_iff, Prod.mk.injEq]
      exact ⟨_, ⟨⟨c, a1'⟩, hc', ⟨j, a2'⟩, hp', a3', hr', rfl, rfl⟩, rfl⟩

theorem resolvePrototype_atop {path : String} {p : Prototype}
    (h : (a.atop t fs).resolvePrototype path p = .ok b) :
    ∃ b', a.resolvePrototype path p = .ok b' ∧ b = b'.atop t fs := by
  rw [resolvePrototype_eq] at h ⊢
  refine foldlM_simulates (fun b b' : Analysis => b = b'.atop t fs) ?_ p.types ?_ h
  · rintro u _ a c rfl hc
    simp only [bind_eq_ok_iff, pure_eq_ok_iff] at hc ⊢
    obtain ⟨⟨i, c'⟩, hc, rfl⟩ := hc
    obtain ⟨c'', hc'', rfl⟩ := resolveType_atop hc
    exact ⟨c'', ⟨(i, c''), hc'', rfl⟩, rfl⟩
  · simp [atop]

end Analysis

namespace FileScan

/-- A file on top of notes and findings that were there before its own. -/
def atop (s : FileScan) (t : Notes) (fs : List Finding) : FileScan := ⟨s.analysis.atop t fs, s.own⟩

variable {t : Notes} {fs : List Finding} {c : FileContext} {s r : FileScan}

theorem readExternalBlock_atop {b : ExternalBlock}
    (h : readExternalBlock c (s.atop t fs) b = .ok r) :
    ∃ r', readExternalBlock c s b = .ok r' ∧ r = r'.atop t fs := by
  rw [readExternalBlock, foldl_readLink] at h ⊢
  refine foldlM_simulates (fun r r' : FileScan => r = r'.atop t fs) ?_ b.functions ?_ h
  · rintro f _ s r rfl hr
    simp only [readExternal, bind_eq_ok_iff, pure_eq_ok_iff] at hr ⊢
    obtain ⟨a, ha, rfl⟩ := hr
    obtain ⟨a', ha', rfl⟩ := Analysis.resolvePrototype_atop ha
    exact ⟨_, ⟨a', ha', rfl⟩, rfl⟩
  · simp [atop, Analysis.atop]

theorem readDefinition_atop {d : FnDef} (h : readDefinition c (s.atop t fs) d = .ok r) :
    ∃ r', readDefinition c s d = .ok r' ∧ r = r'.atop t fs := by
  have hredef : (s.atop t fs).isRedefinition d.proto = s.isRedefinition d.proto := rfl
  unfold readDefinition at h ⊢
  rw [hredef] at h
  split at h
  · next hr =>
    rw [if_pos hr]
    simp only [bind_eq_ok_iff, pure_eq_ok_iff] at h ⊢
    obtain ⟨a, ha, rfl⟩ := h
    rw [atop, Analysis.report_atop] at ha
    obtain ⟨a', ha', rfl⟩ := Analysis.record_atop ha
    exact ⟨_, ⟨a', ha', rfl⟩, rfl⟩
  · next hr =>
    rw [if_neg hr]
    simp only [bind_eq_ok_iff, pure_eq_ok_iff] at h ⊢
    obtain ⟨a, ha, rfl⟩ := h
    have hbind : (s.atop t fs).bind (.defined d.proto d.node.id c.index) =
        (s.bind (.defined d.proto d.node.id c.index)).atop t fs := rfl
    rw [hbind, atop] at ha
    obtain ⟨a', ha', rfl⟩ := Analysis.resolvePrototype_atop ha
    exact ⟨_, ⟨a', ha', rfl⟩, rfl⟩

/-- Any declaration is read the same without the notes and the findings before it. -/
theorem readDecl_atop {d : Decl} (h : readDecl c (s.atop t fs) d = .ok r) :
    ∃ r', readDecl c s d = .ok r' ∧ r = r'.atop t fs := by
  cases d with
  | fnDef d => exact readDefinition_atop h
  | externalBlock b => exact readExternalBlock_atop h
  | rootExport e =>
    rw [readDecl, pure_eq_ok_iff, readRootExport_eq] at h
    refine ⟨_, rfl, h.symm.trans ?_⟩
    rw [readRootExport_eq]
    simp [atop, Analysis.atop, reading]
  | use u =>
    obtain rfl := pure_eq_ok_iff.mp h
    exact ⟨s, rfl, rfl⟩

theorem readDecls_atop {ds : List Decl} (h : ds.foldlM (readDecl c) (s.atop t fs) = .ok r) :
    ∃ r', ds.foldlM (readDecl c) s = .ok r' ∧ r = r'.atop t fs := by
  refine foldlM_simulates (fun r r' : FileScan => r = r'.atop t fs) ?_ ds rfl h
  rintro d _ s r rfl hr
  exact readDecl_atop hr

end FileScan

namespace Analysis

variable {t : Notes} {fs : List Finding}

theorem readFile_atop {c : FileContext} {f : SourceFile} {a b : Analysis}
    (h : (a.atop t fs).readFile c f = .ok b) :
    ∃ b', a.readFile c f = .ok b' ∧ b = b'.atop t fs := by
  simp only [readFile, bind_eq_ok_iff, pure_eq_ok_iff] at h ⊢
  obtain ⟨s, hs, rfl⟩ := h
  obtain ⟨s', hs', rfl⟩ := FileScan.readDecls_atop (s := ⟨a, .empty⟩) hs
  exact ⟨_, ⟨s', hs', rfl⟩, rfl⟩

theorem readFiles_atop {entry : Nat} : ∀ {l : List SourceFile} {i : Nat} {a b : Analysis},
    (a.atop t fs).readFiles entry i l = .ok b →
      ∃ b', a.readFiles entry i l = .ok b' ∧ b = b'.atop t fs
  | [], i, a, b, h => by
    obtain rfl := Except.ok.inj h
    exact ⟨a, rfl, rfl⟩
  | f :: l, i, a, b, h => by
    rw [readFiles, bind_eq_ok_iff] at h
    obtain ⟨c, hc, h⟩ := h
    obtain ⟨c', hc', rfl⟩ := readFile_atop hc
    obtain ⟨b', hb', rfl⟩ := readFiles_atop h
    exact ⟨b', by rw [readFiles, hc']; exact hb', rfl⟩

end Analysis

end Sema
