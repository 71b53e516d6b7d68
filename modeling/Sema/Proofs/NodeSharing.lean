import Mathlib.Data.List.Perm.Lattice
import Sema.Proofs.Coverage

/-!
Programs whose nodes share ids. A note is written once, so an analysis that comes to its end has
met no id twice, with one exception: a definition that is left out lends its note to any registered
definition with the same id, which then counts as left out too.
-/

namespace Sema

/-- The node of a definition. -/
def Decl.definitionIds : Decl → List NodeId
  | .fnDef d => [d.node.id]
  | _ => []

namespace Reading

variable {r : Reading}

/-- A definition is left out or kept, and not both. -/
theorem definitionIds_eq (r : Reading) :
    r.decl.definitionIds = r.redefined.map (·.node.id) ++ r.kept.map (·.node.id) := by
  cases hd : r.decl with
  | fnDef d =>
    rw [redefined_fnDef hd, kept_fnDef hd]
    split <;> rfl
  | _ => simp [redefined, kept, hd, Decl.definitionIds]

/-- The definition that is kept is the one that is registered. -/
theorem filter_functions (r : Reading) : r.functions.filter (·.definition.isSome) =
    r.kept.map fun d => .defined d.proto d.node.id r.context.index := by
  cases hd : r.decl with
  | fnDef d =>
    rw [functions_fnDef hd, kept_fnDef hd]
    split <;> rfl
  | externalBlock b =>
    have hkept : r.kept = [] := by rw [kept, hd]
    rw [functions_externalBlock hd, hkept, List.map_nil, List.filter_eq_nil_iff]
    intro f hf
    obtain ⟨g, -, rfl⟩ := List.mem_map.mp hf
    exact Bool.false_ne_true
  | _ => simp [functions, kept, hd, Decl.functions]

/-- The nodes that analysis answers for in a declaration. -/
def answeredIds (type? : NodeId → Option TypeId) (r : Reading) : List NodeId :=
  r.decl.definitionIds ++ (r.functions.flatMap (·.proto.parts.map (·.node.id)) ++
    r.kept.flatMap fun d => (d.body.live (Expr.diverges type?)).map Expr.id)

/-- These are the nodes that are noted, where no kept body is left out. -/
theorem answeredIds_perm (type? : NodeId → Option TypeId) (r : Reading) :
    (r.answeredIds type?).Perm ((r.noted ++ r.bodyNoted type?).map Prod.fst) := by
  have hnoted : r.noted.map Prod.fst =
      r.functions.flatMap (·.proto.parts.map (·.node.id)) ++ r.redefined.map (·.node.id) := by
    simp [noted, List.map_flatMap, TypeRef.noted, Function.comp_def]
  have hbody : ((r.bodyNoted type?).map Prod.fst).Perm
      (r.kept.map (·.node.id) ++
        r.kept.flatMap fun d => (d.body.live (Expr.diverges type?)).map Expr.id) := by
    rw [bodyNoted, List.map_flatMap, ← List.flatMap_singleton' (r.kept.map _), List.flatMap_map]
    refine List.Perm.trans (List.Perm.flatMap_left _ fun d _ => ?_)
      (List.flatMap_append_perm _ _ _).symm
    simp [Function.comp_def]
  rw [answeredIds, definitionIds_eq, List.map_append, hnoted]
  refine List.Perm.trans ?_ (List.Perm.append_left _ hbody.symm)
  rw [← List.append_assoc, ← List.append_assoc]
  refine List.Perm.append_right _ ?_
  rw [List.append_assoc (r.functions.flatMap _)]
  exact List.perm_append_comm

end Reading

namespace Program

variable {p : Program} {options : BuildOptions} {a b : Analysis}

/-- Whether a definition that is left out has a given node. -/
def Lends (p : Program) (n : NodeId) : Prop := ∃ y ∈ p.redefinitions, y.2.node.id = n

/-- The nodes that an analysis answers for: all definitions, the written types in the signatures of
functions, and the live parts of the bodies of registered definitions. -/
def answeredIds (p : Program) (b : Analysis) : List NodeId :=
  p.decls.flatMap (·.2.definitionIds) ++ (b.functions.flatMap (·.proto.parts.map (·.node.id)) ++
    p.kept.flatMap fun x => (x.2.body.live (Expr.diverges b.notes.exprType?)).map Expr.id)

theorem answeredIds_perm (hf : b.functions = p.functions) : (p.answeredIds b).Perm
    (p.readings.flatMap (Reading.answeredIds b.notes.exprType?)) := by
  have hkept : (p.kept.flatMap fun x =>
        (x.2.body.live (Expr.diverges b.notes.exprType?)).map Expr.id) =
      p.readings.flatMap fun r => r.kept.flatMap fun d =>
        (d.body.live (Expr.diverges b.notes.exprType?)).map Expr.id := by
    simp [kept, List.flatMap_assoc, List.flatMap_map]
  rw [answeredIds, flatMap_decls fun x => x.2.definitionIds, hf, functions, List.flatMap_assoc,
    hkept]
  exact ((List.flatMap_append_perm _ _ _).append_left _).trans (List.flatMap_append_perm _ _ _)

/-- A body is left out exactly when its definition shares its node with one that is left out. -/
theorem isSkipped_iff_lends (h : (Analysis.initial options).Runs p.readings a)
    (ha : a.notes.Distinct) {n : NodeId} : a.notes.isSkipped n ↔ p.Lends n := by
  rw [isSkipped_iff h ha]
  constructor
  · rintro ⟨r, hr, d, hd, rfl⟩
    exact ⟨(r.context, d), mem_redefinitions_iff.mpr ⟨r, hr, hd, rfl⟩, rfl⟩
  · rintro ⟨⟨c, d⟩, hy, rfl⟩
    obtain ⟨r, hr, hd, rfl⟩ := mem_redefinitions_iff.mp hy
    exact ⟨r, hr, d, hd, rfl⟩

/-- Where no definition left out lends its note, the nodes answered for are those that are noted. -/
theorem nodup_answeredIds (h : (Analysis.initial options).Runs p.readings a)
    (ha : a.notes.Distinct)
    (hall : a.notes.RecordedAll (a.checkFiles 0 p.files).notes b.notes)
    (hok : (a.checkFiles 0 p.files).outcome = .ok ()) (hf : b.functions = a.functions)
    (hlends : ∀ x ∈ p.kept, ¬ p.Lends x.2.node.id) : (p.answeredIds b).Nodup := by
  have hskip : ∀ r ∈ p.readings, ∀ d ∈ r.kept, a.notes.isSkipped d.node.id = false := by
    intro r hr d hd
    rw [← Bool.not_eq_true, isSkipped_iff_lends h ha]
    exact hlends (r.context, d) (mem_kept_iff.mpr ⟨r, hr, hd, rfl⟩)
  obtain ⟨hnoted, -⟩ := noted_of_not_skipped h hskip hok (Scope.agrees_of_recordedAll hall)
  have hwritten : b.notes.written = p.readings.flatMap Reading.noted ++
      p.readings.flatMap (Reading.bodyNoted b.notes.exprType?) := by
    rw [hall.written, hnoted]
    exact congrArg (· ++ _) h.written
  have hnodup := Notes.nodup_written (hall.distinct ha)
  rw [hwritten] at hnodup
  refine (answeredIds_perm (hf.trans (functions_eq h))).nodup_iff.mpr ?_
  have hperm : (p.readings.flatMap (Reading.answeredIds b.notes.exprType?)).Perm
      ((p.readings.flatMap Reading.noted ++
        p.readings.flatMap (Reading.bodyNoted b.notes.exprType?)).map Prod.fst) := by
    refine (List.Perm.flatMap_left _ fun r _ => r.answeredIds_perm _).trans ?_
    rw [← List.map_flatMap]
    exact (List.flatMap_append_perm _ _ _).symm.map _
  exact hperm.nodup_iff.mpr hnodup

/-- A definition that is left out and a registered one that share their node stand in the way. -/
theorem not_lends_of_nodup (h : (p.answeredIds b).Nodup) {x : FileContext × FnDef}
    (hx : x ∈ p.kept) : ¬ p.Lends x.2.node.id := by
  rintro ⟨y, hy, heq⟩
  have hids := h.of_append_left
  rw [flatMap_decls fun x => x.2.definitionIds] at hids
  simp only [Reading.definitionIds_eq] at hids
  have hperm := List.flatMap_append_perm p.readings
    (fun r : Reading => r.redefined.map (·.node.id)) fun r => r.kept.map (·.node.id)
  have hdisjoint := List.disjoint_of_nodup_append (hperm.nodup_iff.mpr hids)
  obtain ⟨r, hr, hd, -⟩ := mem_kept_iff.mp hx
  obtain ⟨r', hr', hd', -⟩ := mem_redefinitions_iff.mp hy
  exact hdisjoint (List.mem_flatMap.mpr ⟨r', hr', List.mem_map_of_mem hd'⟩)
    (List.mem_flatMap.mpr ⟨r, hr, heq ▸ List.mem_map_of_mem hd⟩)

/-- A registered definition that is lent no note is checked. -/
theorem checked_of_not_lends (h : (Analysis.initial options).Runs p.readings a)
    (ha : a.notes.Distinct)
    (hall : a.notes.RecordedAll (a.checkFiles 0 p.files).notes b.notes)
    (hok : (a.checkFiles 0 p.files).outcome = .ok ()) {x : FileContext × FnDef} (hx : x ∈ p.kept)
    (hlends : ¬ p.Lends x.2.node.id) :
    ∃ t, b.notes.exprType? x.2.body.id = some t ∧
      b.notes.get? x.2.node.id = some (.fnDef false (some t)) := by
  obtain ⟨r, hr, hd, -⟩ := mem_kept_iff.mp hx
  have hskip : ∀ d ∈ r.kept, a.notes.isSkipped d.node.id = false := by
    intro d hd'
    rw [Reading.kept_eq_of_mem hd, List.mem_singleton] at hd'
    rw [hd', ← Bool.not_eq_true, isSkipped_iff_lends h ha]
    exact hlends
  have hagrees := Scope.agrees_of_recordedAll hall
  rw [checkFiles_eq] at hok hall hagrees
  obtain ⟨hends, hnotes⟩ := Checked.notes_forM hok
  have hmem : ∀ s ∈ ((Scope.ofReading a r).checkDecl r.decl).notes,
      s ∈ (p.readings.forM fun r => (Scope.ofReading a r).checkDecl r.decl).notes := by
    intro s hs
    rw [hnotes]
    exact List.mem_flatMap.mpr ⟨r, hr, hs⟩
  obtain ⟨-, hgives⟩ := Scope.noted_of_checkDecl (isSkipped_of_redefined h hr) hskip
    ⟨hends r hr, rfl⟩ fun n t hn => hagrees n t (hmem _ hn)
  obtain ⟨t, ht, hnote⟩ := hgives _ hd
  exact ⟨t, ht, hall.get? _ (hmem _ hnote)⟩

/-- What a result tells about the nodes it answers for. -/
structure Answered (p : Program) (b : Analysis) : Prop where
  /-- The definitions of the result are those that are kept. -/
  definitions : b.definitions = p.kept.map fun x => .defined x.2.proto x.2.node.id x.1.index
  /-- All nodes are distinct, unless one that is left out has the node of a registered one. -/
  nodup_iff : (p.answeredIds b).Nodup ↔ ∀ x ∈ p.kept, ¬ p.Lends x.2.node.id
  /-- A registered definition with the node of one that is left out counts as left out. -/
  leftOut : ∀ x ∈ p.kept, p.Lends x.2.node.id →
    b.notes.get? x.2.node.id = some (.fnDef true none)
  /-- The body of any other is checked. -/
  checked : ∀ x ∈ p.kept, ¬ p.Lends x.2.node.id → ∃ t, b.notes.exprType? x.2.body.id = some t ∧
    b.notes.get? x.2.node.id = some (.fnDef false (some t))

/-- Analysis rejects all ids that are used again, but for that of a definition left out. -/
theorem analyze_answers (h : p.analyze options = .ok b) : p.Answered b := by
  obtain ⟨a, notes, ha, hnotes, hok, rfl⟩ := analyze_eq_ok_iff.mp h
  obtain ⟨hfiled, hruns⟩ := signatures_ok ha
  have hdistinct := hfiled.sound.distinct
  have hall := Notes.recordedAll hnotes
  refine ⟨?_, ⟨fun hnodup x hx => not_lends_of_nodup hnodup hx, fun hlends => ?_⟩,
    fun x _ hlends => ?_, fun x hx hlends => ?_⟩
  · rw [Analysis.definitions, hfiled.sound.definitions]
    refine (Function.filterMap_handles _ _).trans ?_
    rw [functions_eq hruns, functions, kept, List.filter_flatMap, List.map_flatMap]
    refine List.flatMap_congr fun r _ => ?_
    rw [r.filter_functions, List.map_map]
    rfl
  · exact nodup_answeredIds hruns hdistinct hall hok rfl hlends
  · obtain ⟨⟨c, d⟩, hy, heq⟩ := hlends
    obtain ⟨r, hr, hd, -⟩ := mem_redefinitions_iff.mp hy
    rw [← heq]
    exact hall.within _ _ (hruns.skipped r hr d hd)
  · exact checked_of_not_lends hruns hdistinct hall hok hx hlends

end Program

/-- A file that defines `f` twice with one node. The first body calls a function that is nowhere. -/
def Program.lent : Program where
  files := [⟨"main.kiln", .numbered 0, [
    .fnDef ⟨.numbered 1, ⟨.numbered 2, "f", .fileOnly, [], .named (.numbered 3) "void", []⟩,
      .call (.numbered 4) (.symbol (.numbered 5) "g") []⟩,
    .fnDef ⟨.numbered 1, ⟨.numbered 6, "f", .fileOnly, [], .named (.numbered 7) "void", []⟩,
      .void (.numbered 8)⟩]⟩]
  entry := 0

theorem Program.lent_answered : ∃ b, lent.analyze ⟨some "app", some .executable⟩ = .ok b ∧
    lent.Answered b :=
  ⟨_, rfl, analyze_answers rfl⟩

/-- The one definition that is registered is never checked: its call is not reported. -/
theorem Program.lent_unchecked : ∃ b, lent.analyze ⟨some "app", some .executable⟩ = .ok b ∧
    ¬ (lent.answeredIds b).Nodup ∧ b.definitions.map (·.definition) = [some (Node.numbered 1).id] ∧
    b.notes.get? (Node.numbered 1).id = some (.fnDef true none) ∧
    b.notes.get? (Node.numbered 4).id = none ∧
    b.findings = [⟨"main.kiln", .start, .redefinition "f"⟩] :=
  ⟨_, rfl, by decide, rfl, rfl, rfl, rfl⟩

end Sema
