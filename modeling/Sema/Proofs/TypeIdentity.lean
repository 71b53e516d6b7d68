import Sema.Proofs.Erroneous
import Sema.Proofs.Matching

/-!
The types of signatures across a whole program. Two written types get one handle exactly when they are
the same but for ids, places and the spelling of unknown names, wherever they stand; and what is wrong
with written types is reported once for each node at fault.
-/

namespace Sema

/-! ### Faults of single nodes -/

namespace TypeRef

/-- What is wrong at a node of a written type: a name that is unknown, or a pointer straight to
`unreachable`. -/
def issue? : TypeRef → Option Issue
  | .named _ name =>
      if name ∈ ["void", "bool", "i32", "u8", "unreachable"] then none else some (.unknownType name)
  | .pointer _ _ (.named _ name) =>
      if name = "unreachable" then some .pointerToUnreachable else none
  | .pointer _ _ (.pointer ..) => none

/-- The report of what is wrong at a node. -/
def finding? (path : String) (t : TypeRef) : Option Finding :=
  t.issue?.map fun issue => ⟨path, t.node.pos, issue⟩

theorem issue?_pointer (n : Node) (m : Mutability) (child : TypeRef) :
    (pointer n m child).issue? =
      if child.ty = .unreachable then some .pointerToUnreachable else none := by
  cases child with
  | named _ name => simp only [issue?, ty, Ty.ofName_eq_unreachable_iff]
  | pointer => rfl

/-- A written type is reported node by node. -/
theorem findings_eq (path : String) (t : TypeRef) :
    t.findings path = t.parts.filterMap (finding? path) := by
  induction t with
  | named n name =>
    have hknown : Ty.ofName name ≠ .invalid ↔ _ := Ty.ofName_ne_invalid_iff
    rw [findings, parts, List.filterMap_cons, finding?, issue?]
    by_cases h : Ty.ofName name = .invalid
    · rw [if_pos h, if_neg (fun hmem => hknown.mpr hmem h)]
      rfl
    · rw [if_neg h, if_pos (hknown.mp h)]
      rfl
  | pointer n m child ih =>
    rw [findings, parts, List.filterMap_append, ih, List.filterMap_cons, finding?, issue?_pointer]
    split <;> rfl

theorem filter_ofType_findings (path : String) (t : TypeRef) :
    (t.findings path).filter Finding.ofType = t.findings path :=
  List.filter_eq_self.mpr fun _ => ofType_of_mem_findings

end TypeRef

namespace Prototype

/-- What is reported of the written types of a signature. -/
def typeFindings (path : String) (p : Prototype) : List Finding :=
  p.parts.filterMap (TypeRef.finding? path)

theorem filter_ofType_findings (path : String) (p : Prototype) :
    (p.findings path).filter Finding.ofType = p.typeFindings path := by
  have hdirectives : (p.directives.map (Directive.refusal path)).filter Finding.ofType = [] := by
    rw [List.filter_eq_nil_iff]
    intro f hf
    obtain ⟨d, -, rfl⟩ := List.mem_map.mp hf
    exact Bool.false_ne_true
  rw [findings, List.filter_append, hdirectives, List.nil_append, List.filter_flatMap, typeFindings,
    parts, List.filterMap_flatMap]
  refine List.flatMap_congr fun t _ => ?_
  rw [TypeRef.filter_ofType_findings, TypeRef.findings_eq]

end Prototype

/-- No fault of a root export is about a written type. -/
theorem RootExport.ofType_eq_false {path : String} {e : RootExport} {f : Finding}
    (h : f ∈ e.directives.flatMap (Directive.versionFindings path) ++ e.kindFindings path) :
    f.ofType = false := by
  rcases List.mem_append.mp h with h | h
  · obtain ⟨d, -, h⟩ := List.mem_flatMap.mp h
    unfold Directive.versionFindings at h
    split at h
    · split at h
      · cases h
      · rw [List.mem_singleton.mp h]
        rfl
    · rw [List.mem_singleton.mp h]
      rfl
  · unfold kindFindings at h
    split at h
    · cases h
    · rw [List.mem_singleton.mp h]
      rfl

namespace Reading

/-- A declaration is reported for the written types of the functions it adds. -/
theorem filter_ofType_findings (r : Reading) : r.findings.filter Finding.ofType =
    r.functions.flatMap fun f => f.proto.typeFindings r.context.path := by
  cases hd : r.decl with
  | fnDef d =>
    rw [findings_fnDef hd, functions_fnDef hd]
    split
    · rfl
    · rw [Prototype.filter_ofType_findings, List.flatMap_singleton]
      rfl
  | externalBlock b =>
    have hdirectives : ((b.directives.filter (·.name ≠ "link")).map
        (Directive.refusal r.context.path)).filter Finding.ofType = [] := by
      rw [List.filter_eq_nil_iff]
      intro f hf
      obtain ⟨d, -, rfl⟩ := List.mem_map.mp hf
      exact Bool.false_ne_true
    rw [findings_externalBlock hd, functions_externalBlock hd, List.filter_append, hdirectives,
      List.nil_append, List.filter_flatMap, List.flatMap_map]
    exact List.flatMap_congr fun f _ => f.proto.filter_ofType_findings _
  | rootExport e =>
    have hnone : r.functions = [] := by rw [functions, hd]; rfl
    rw [hnone, List.flatMap_nil, findings_rootExport hd, List.filter_eq_nil_iff]
    intro f hf
    split at hf
    · rcases List.mem_append.mp hf with hf | hf
      · simp [RootExport.ofType_eq_false (List.mem_append_left _ hf)]
      · split at hf
        · rw [List.mem_singleton.mp hf]
          exact Bool.false_ne_true
        · simp [RootExport.ofType_eq_false (List.mem_append_right _ hf)]
    · rw [List.mem_singleton.mp hf]
      exact Bool.false_ne_true
  | use u =>
    rw [findings, functions, hd]
    rfl

end Reading

/-! ### Programs -/

namespace Program

variable {p : Program} {options : BuildOptions} {a b : Analysis}

/-- The path of a file, by its index. -/
def pathOf (p : Program) (file : Nat) : String := (p.files[file]?.map SourceFile.path).getD ""

theorem pathOf_reading {r : Reading} (h : r ∈ p.readings) :
    p.pathOf r.context.index = r.context.path := by
  obtain ⟨i, hi⟩ := mem_readings_iff.mp h
  obtain ⟨x, hx, hc, -⟩ := mem_readingsIn hi
  rw [pathOf, hc, getElem?_files hx]
  rfl

/-- What is reported of written types after the signatures. -/
theorem filter_ofType_signatures (h : (Analysis.initial options).Runs p.readings a)
    (hplain : ∀ f ∈ p.functions, f.proto.IsPlain) : a.findings.filter Finding.ofType =
      p.functions.flatMap fun f => f.proto.typeFindings (p.pathOf f.file) := by
  rw [findings_of_plain h hplain, List.filter_flatMap, functions, List.flatMap_assoc]
  refine List.flatMap_congr fun r hr => ?_
  rw [Reading.filter_ofType_findings]
  refine List.flatMap_congr fun f hf => ?_
  rw [Reading.file_of_mem_functions hf, pathOf_reading hr]

/-- Neither the bodies nor the demand for an artifact add a report about a written type. -/
theorem filter_ofType_rest
    (ha : (Analysis.initial options).readFiles p.entry.toNat 0 p.files = .ok a) :
    ((a.checkFiles 0 p.files).findings ++ Analysis.outputFindings p a.output).filter
      Finding.ofType = [] := by
  refine filter_rest_eq_nil ha fun f htype => ?_
  unfold Finding.ofType at htype
  split at htype
  · next hi => simp [hi, Issue.ofBody]
  · next hi => simp [hi, Issue.ofBody]
  · cases htype

/-- What is known of the written types in the signatures of a result. -/
structure TypesIdentified (p : Program) (options : BuildOptions) (b : Analysis) : Prop where
  /-- Every one has a type, whose name tells the normal form. -/
  named : ∀ f ∈ b.functions, ∀ t ∈ f.proto.parts, ∃ i,
    b.notes.resolvedType? t.node.id = some i ∧ b.types.name? i = some t.ty.name
  /-- Two have the same type exactly when they have the same normal form. -/
  identical : ∀ f ∈ b.functions, ∀ t ∈ f.proto.parts, ∀ g ∈ b.functions, ∀ u ∈ g.proto.parts,
    b.notes.resolvedType? t.node.id = b.notes.resolvedType? u.node.id ↔ t.ty = u.ty
  /-- The signatures report each node at fault once, and nothing later reports one again. -/
  reported : ∃ a, (Analysis.initial options).readFiles p.entry.toNat 0 p.files = .ok a ∧
    a.findings.filter Finding.ofType =
      (b.functions.flatMap fun f => f.proto.typeFindings (p.pathOf f.file)) ∧
    a.findings <+: b.findings ∧ b.findings.filter Finding.ofType = a.findings.filter Finding.ofType

theorem exists_denotes (hplain : ∀ f ∈ p.functions, f.proto.IsPlain)
    (hb : p.analyze options = .ok b) {f : Function} (hf : f ∈ b.functions) {t : TypeRef}
    (ht : t ∈ f.proto.parts) : ∃ i, b.notes.resolvedType? t.node.id = some i ∧
      b.types.Denotes i t.ty := by
  obtain ⟨a, notes, ha, hnotes, -, rfl⟩ := analyze_eq_ok_iff.mp hb
  obtain ⟨hfiled, hruns⟩ := signatures_ok ha
  obtain ⟨u, hu, htu⟩ := List.mem_flatMap.mp ht
  obtain ⟨i, hi, -, hden⟩ := (hfiled.sound.resolved f hf t ht).resolvedType?
  have hf' : f ∈ p.functions := Program.functions_eq hruns ▸ hf
  exact ⟨i, (Notes.recordedAll hnotes).within.resolvedType? hi,
    hden (TypeRef.isPlain_of_mem_parts htu (hplain f hf' u hu))⟩

/-- Types are structural across a program: wherever written types stand in the signatures of its files,
they have one handle exactly when their normal forms are the same. -/
theorem analyze_identifies (hplain : ∀ f ∈ declared p.decls, f.proto.IsPlain)
    (hb : p.analyze options = .ok b) : p.TypesIdentified options b := by
  have hplain' : ∀ f ∈ p.functions, f.proto.IsPlain := fun f hf => hplain f (functions_subset p hf)
  have htypes := wellFormed_types hb
  refine ⟨fun f hf t ht => ?_, fun f hf t ht g hg u hu => ?_, ?_⟩
  · obtain ⟨i, hi, hden⟩ := exists_denotes hplain' hb hf ht
    exact ⟨i, hi, htypes.name?_of_denotes hden⟩
  · obtain ⟨i, hi, hden⟩ := exists_denotes hplain' hb hf ht
    obtain ⟨j, hj, hden'⟩ := exists_denotes hplain' hb hg hu
    rw [hi, hj, Option.some.injEq]
    exact htypes.denotes_iff_eq hden hden'
  · obtain ⟨a, notes, ha, -, -, rfl⟩ := analyze_eq_ok_iff.mp hb
    have hruns := (signatures_ok ha).2
    refine ⟨a, ha, ?_, ?_, ?_⟩
    · rw [filter_ofType_signatures hruns hplain', ← Program.functions_eq hruns]
    · rw [List.append_assoc]
      exact List.prefix_append _ _
    · rw [List.append_assoc, List.filter_append, filter_ofType_rest ha, List.append_nil]

/-- Two files with unknown names in signatures: `*const *mut foo` and `*mut unreachable` in one, and
`*mut bar` in the other. -/
def mistyped : Program where
  files := [
    ⟨"main.kiln", .numbered 0, [
      .fnDef ⟨.numbered 1, ⟨.numbered 2, "f", .fileOnly, [
          ⟨.numbered 3, "p",
            .pointer (.numbered 4) .constant
              (.pointer (.numbered 5) .mutable (.named (.numbered 6) "foo"))⟩,
          ⟨.numbered 7, "q", .pointer (.numbered 8) .mutable (.named (.numbered 9) "unreachable")⟩],
          .named (.numbered 10) "void", []⟩, .void (.numbered 11)⟩]⟩,
    ⟨"put.kiln", .numbered 12, [
      .externalBlock ⟨.numbered 13, [], [⟨.numbered 14, ⟨.numbered 15, "put", .fileOnly,
        [⟨.numbered 16, "r", .pointer (.numbered 17) .mutable (.named (.numbered 18) "bar")⟩],
        .named (.numbered 19) "i32", []⟩⟩]⟩]⟩]
  entry := 0

theorem mistyped_identified : ∃ b, mistyped.analyze ⟨some "app", some .executable⟩ = .ok b ∧
    b.findings = [⟨"main.kiln", .start, .unknownType "foo"⟩,
      ⟨"main.kiln", .start, .pointerToUnreachable⟩, ⟨"put.kiln", .start, .unknownType "bar"⟩] ∧
    mistyped.TypesIdentified ⟨some "app", some .executable⟩ b := by
  obtain ⟨b, hb, hfound⟩ : ∃ b, mistyped.analyze ⟨some "app", some .executable⟩ = .ok b ∧
      b.findings = [⟨"main.kiln", .start, .unknownType "foo"⟩,
        ⟨"main.kiln", .start, .pointerToUnreachable⟩, ⟨"put.kiln", .start, .unknownType "bar"⟩] :=
    ⟨_, rfl, rfl⟩
  exact ⟨b, hb, hfound, analyze_identifies (by decide) hb⟩

end Program

end Sema
