import Sema.Proofs.Coverage
import Sema.Proofs.Interning

/-!
What mismatches tell of types that are reported already. The invalid type is never named in a
mismatch, but a pointer to it is a type like any other: where a signature asks for such a pointer,
mismatches may name it.
-/

namespace Sema

/-- Whether a name is that of the invalid type or of a pointer, at any depth, to it. -/
inductive Erroneous : String → Prop where
  | invalid : Erroneous "(invalid)"
  | pointer {n : String} (m : Mutability) : Erroneous n → Erroneous ("*" ++ m.word ++ " " ++ n)

/-! ### Names of types -/

namespace TypeTable

variable {t : TypeTable}

/-- A type with an erroneous name is invalid itself, or there is a pointer to the invalid type. -/
theorem WellFormed.pointsToInvalid_of_name? (h : t.WellFormed) {name : String} (hname : Erroneous name)
    {i : TypeId} (hi : t.name? i = some name) : i = .invalid ∨ t.PointsToInvalid := by
  induction hname generalizing i with
  | invalid => exact .inl (h.eq_invalid_of_name? hi)
  | @pointer n m _ ih =>
    obtain ⟨m', c, n', he, -, hc, heq⟩ := h.pointer_of_name? hi (by simp)
    obtain ⟨rfl, rfl⟩ := pointer_name_injective heq
    rcases ih hc with rfl | hpoints
    · exact .inr ⟨i, m, n, he⟩
    · exact .inr hpoints

end TypeTable

/-! ### Findings of the signatures -/

/-- Whether an issue can be found in a signature or a root export. -/
def Issue.ofSignature : Issue → Bool
  | .invalidDirective _ => true
  | .unknownType _ => true
  | .pointerToUnreachable => true
  | .redefinition _ => true
  | .exportOutsideEntry => true
  | .repeatedExport => true
  | .invalidVersion => true
  | .unknownOutputKind _ => true
  | _ => false

theorem Finding.ofSignature_of_ofType {f : Finding} (h : f.ofType) : f.issue.ofSignature := by
  unfold ofType at h
  split at h
  · next hf => rw [hf]; rfl
  · next hf => rw [hf]; rfl
  · cases h

theorem Prototype.ofSignature_of_mem_findings {path : String} {p : Prototype} {f : Finding}
    (h : f ∈ p.findings path) : f.issue.ofSignature := by
  rw [findings, List.mem_append] at h
  rcases h with h | h
  · obtain ⟨d, -, rfl⟩ := List.mem_map.mp h
    rfl
  · obtain ⟨t, -, ht⟩ := List.mem_flatMap.mp h
    exact Finding.ofSignature_of_ofType (TypeRef.ofType_of_mem_findings ht)

theorem RootExport.ofSignature_of_mem_kindFindings {path : String} {e : RootExport} {f : Finding}
    (h : f ∈ e.kindFindings path) : f.issue.ofSignature := by
  unfold kindFindings at h
  split at h
  · cases h
  · rw [List.mem_singleton.mp h]
    rfl

theorem Directive.ofSignature_of_mem_versionFindings {path : String} {d : Directive} {f : Finding}
    (h : f ∈ d.versionFindings path) : f.issue.ofSignature := by
  unfold versionFindings at h
  split at h
  · split at h
    · cases h
    · rw [List.mem_singleton.mp h]
      rfl
  · rw [List.mem_singleton.mp h]
    rfl

theorem Reading.ofSignature_of_mem_findings {r : Reading} {f : Finding} (h : f ∈ r.findings) :
    f.issue.ofSignature := by
  cases hd : r.decl with
  | fnDef d =>
    rw [findings_fnDef hd] at h
    split at h
    · rw [List.mem_singleton.mp h]
      rfl
    · exact Prototype.ofSignature_of_mem_findings h
  | externalBlock b =>
    rw [findings_externalBlock hd, List.mem_append] at h
    rcases h with h | h
    · obtain ⟨d, -, rfl⟩ := List.mem_map.mp h
      rfl
    · obtain ⟨g, -, hg⟩ := List.mem_flatMap.mp h
      exact Prototype.ofSignature_of_mem_findings hg
  | rootExport e =>
    rw [findings_rootExport hd] at h
    split at h
    · rw [List.mem_append] at h
      rcases h with h | h
      · obtain ⟨d, -, hf⟩ := List.mem_flatMap.mp h
        exact Directive.ofSignature_of_mem_versionFindings hf
      · split at h
        · rw [List.mem_singleton.mp h]
          rfl
        · exact RootExport.ofSignature_of_mem_kindFindings h
    · rw [List.mem_singleton.mp h]
      rfl
  | use u =>
    rw [findings, hd] at h
    cases h

namespace Program

variable {p : Program} {options : BuildOptions} {a b : Analysis}

/-- The signatures give no issues but those of signatures. -/
theorem filter_signatures_eq_nil (h : (Analysis.initial options).Runs p.readings a)
    {q : Finding → Bool} (hq : ∀ f, q f → f.issue.ofSignature = false) :
    a.findings.filter q = [] := by
  have hnil : (Analysis.initial options).findings = [] := rfl
  have htype : ∀ f, q f → f.ofType = false := by
    intro f hf
    rw [← Bool.not_eq_true]
    intro hof
    have hsig := Finding.ofSignature_of_ofType hof
    rw [hq f hf] at hsig
    cases hsig
  rw [h.findings.filter_eq htype, hnil, List.filter_nil, List.nil_append, List.filter_eq_nil_iff]
  intro f hf hqf
  obtain ⟨r, -, hr⟩ := List.mem_flatMap.mp hf
  have hsig := Reading.ofSignature_of_mem_findings hr
  rw [hq f hqf] at hsig
  cases hsig

/-- The signatures give no mismatch. -/
theorem filter_isMismatch_findings (h : (Analysis.initial options).Runs p.readings a) :
    a.findings.filter Finding.isMismatch = [] := by
  refine filter_signatures_eq_nil h fun f hmis => ?_
  unfold Finding.isMismatch at hmis
  split at hmis
  · next heq => rw [heq]; rfl
  · cases hmis

/-- A mismatch is one of two types of the table, of which neither accepts the other. -/
theorem explains_of_mismatch (hb : p.analyze options = .ok b) {f : Finding} (hf : f ∈ b.findings)
    (hmis : f.isMismatch) : b.types.Explains f.issue := by
  obtain ⟨a, notes, ha, -, -, rfl⟩ := analyze_eq_ok_iff.mp hb
  rw [List.mem_append, List.mem_append] at hf
  rcases hf with (hf | hf) | hf
  · have hnone := List.filter_eq_nil_iff.mp (filter_isMismatch_findings (signatures_ok ha).2)
    exact absurd hmis (hnone f hf)
  · exact (ensures_checkFiles ha).findings f hf
  · rcases issue_of_mem_outputFindings hf with hi | hi
    · rw [Finding.isMismatch, hi] at hmis
      cases hmis
    · rw [Finding.isMismatch, hi] at hmis
      cases hmis

/-- There is a pointer to the invalid type only where a registered signature asks for one. -/
theorem blames_of_pointsToInvalid (hb : p.analyze options = .ok b) (h : b.types.PointsToInvalid) :
    ∃ g ∈ b.functions, b.Blames g.proto.parts := by
  obtain ⟨a, notes, ha, -, -, rfl⟩ := analyze_eq_ok_iff.mp hb
  obtain ⟨g, hg, hgb⟩ := (signatures_ok ha).1.sound.blamed h
  refine ⟨g, hg, hgb.mono (List.Subset.refl _) ?_⟩
  rw [List.append_assoc]
  exact List.subset_append_left _ _

theorem wellFormed_types (hb : p.analyze options = .ok b) : b.types.WellFormed := by
  obtain ⟨a, notes, ha, -, -, rfl⟩ := analyze_eq_ok_iff.mp hb
  exact (signatures_ok ha).1.sound.types

/-- No mismatch names the invalid type, and none names a pointer to it unless a signature of a
registered function has a pointer to a name that is reported to be unknown. -/
theorem mismatch_of_analyze (hb : p.analyze options = .ok b) {f : Finding} (hf : f ∈ b.findings)
    {E A : String} (hi : f.issue = .mismatch E A) : E ≠ "(invalid)" ∧ A ≠ "(invalid)" ∧
      (Erroneous E ∨ Erroneous A → ∃ g ∈ b.functions, b.Blames g.proto.parts) := by
  have hmis : f.isMismatch := by rw [Finding.isMismatch, hi]
  obtain ⟨e, t, he, ht, hnot⟩ : b.types.Explains (.mismatch E A) :=
    hi ▸ explains_of_mismatch hb hf hmis
  have htypes := wellFormed_types hb
  have hne : e ≠ .invalid := by
    rintro rfl
    exact hnot (by simp [TypeId.accepts])
  have hnt : t ≠ .invalid := by
    rintro rfl
    exact hnot (by simp [TypeId.accepts])
  refine ⟨?_, ?_, ?_⟩
  · rintro rfl
    exact hne (htypes.eq_invalid_of_name? he)
  · rintro rfl
    exact hnt (htypes.eq_invalid_of_name? ht)
  · rintro (hE | hA)
    · exact blames_of_pointsToInvalid hb ((htypes.pointsToInvalid_of_name? hE he).resolve_left hne)
    · exact blames_of_pointsToInvalid hb ((htypes.pointsToInvalid_of_name? hA ht).resolve_left hnt)

end Program

/-- A function with a pointer to the unknown type `foo` as its parameter, called with a number. -/
def Program.blaming : Program where
  files := [⟨"main.kiln", .numbered 0, [
    .fnDef ⟨.numbered 1, ⟨.numbered 2, "f", .fileOnly,
        [⟨.numbered 4, "p", .pointer (.numbered 5) .constant (.named (.numbered 6) "foo")⟩],
        .named (.numbered 3) "void", []⟩,
      .void (.numbered 7)⟩,
    .fnDef ⟨.numbered 8, ⟨.numbered 9, "g", .fileOnly, [], .named (.numbered 10) "void", []⟩,
      .call (.numbered 11) (.symbol (.numbered 12) "f") [.number (.numbered 13) "1"]⟩]⟩]
  entry := 0

theorem Program.blaming_ok : ∃ b, blaming.analyze ⟨some "app", some .executable⟩ = .ok b ∧
    b.findings = [⟨"main.kiln", .start, .unknownType "foo"⟩,
      ⟨"main.kiln", .start, .mismatch "*const (invalid)" "i32"⟩] :=
  ⟨_, rfl, rfl⟩

/-- The mismatch of the number and the pointer is reported although `foo` is reported already. -/
theorem Program.blaming_mismatch : ∃ b, blaming.analyze ⟨some "app", some .executable⟩ = .ok b ∧
    ∃ f ∈ b.findings, ∃ E A, f.issue = .mismatch E A ∧ Erroneous E := by
  obtain ⟨b, hb, hfound⟩ := blaming_ok
  refine ⟨b, hb, ⟨"main.kiln", .start, .mismatch "*const (invalid)" "i32"⟩, ?_, _, _, rfl, ?_⟩
  · rw [hfound]
    exact List.mem_cons_of_mem _ (List.mem_singleton_self _)
  · exact .pointer .constant .invalid

theorem Program.blaming_blames : ∃ b, blaming.analyze ⟨some "app", some .executable⟩ = .ok b ∧
    ∃ f ∈ b.findings, f.issue = .mismatch "*const (invalid)" "i32" ∧
      "*const (invalid)" ≠ "(invalid)" ∧ "i32" ≠ "(invalid)" ∧
      (Erroneous "*const (invalid)" ∨ Erroneous "i32" →
        ∃ g ∈ b.functions, b.Blames g.proto.parts) := by
  obtain ⟨b, hb, hfound⟩ := blaming_ok
  have hmem : ⟨"main.kiln", .start, .mismatch "*const (invalid)" "i32"⟩ ∈ b.findings := by
    rw [hfound]
    exact List.mem_cons_of_mem _ (List.mem_singleton_self _)
  exact ⟨b, hb, _, hmem, rfl, mismatch_of_analyze hb hmem rfl⟩

end Sema
