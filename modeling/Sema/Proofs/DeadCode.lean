import Sema.Proofs.LeftOut

/-!
Statements that are not reached. Such a statement is at most found to be there; without it all else
is the same, and so it is without a definition that repeats a name.
-/

namespace Sema

namespace Checked

variable {α β : Type}

/-- Whether `y` is `x` without the findings `fs`, if one of them ends with a value and with notes of
the types that are told. -/
def Trims (type? : NodeId → Option TypeId) (fs : List Finding) (x y : Checked α) : Prop :=
  (∃ v, x.Ends type? v ∨ y.Ends type? v) → y.outcome = x.outcome ∧ y.notes = x.notes ∧
    ∃ l r, x.findings = l ++ fs ++ r ∧ y.findings = l ++ r

namespace Trims

variable {type? : NodeId → Option TypeId} {fs : List Finding} {x y : Checked α}
  {f g : α → Checked β}

/-- Nothing is asked where both stop. -/
theorem of_error {c c' : AnalysisError} (h : x.outcome = .error c) (h' : y.outcome = .error c') :
    x.Trims type? fs y := by
  rintro ⟨v, hv | hv⟩
  · cases h.symm.trans hv.1
  · cases h'.symm.trans hv.1

/-- The statement is in the first run of two. -/
theorem bind_left (h : x.Trims type? fs y) : (x >>= f).Trims type? fs (y >>= f) := by
  rintro ⟨w, hw⟩
  have hfirst : ∃ v, x.Ends type? v ∨ y.Ends type? v := by
    rcases hw with hw | hw
    · obtain ⟨v, hv, -⟩ := hw.of_bind
      exact ⟨v, .inl hv⟩
    · obtain ⟨v, hv, -⟩ := hw.of_bind
      exact ⟨v, .inr hv⟩
  obtain ⟨hout, hnotes, l, r, hx, hy⟩ := h hfirst
  rw [bind_eq, bind_eq, Checked.bind, Checked.bind, hout]
  cases x.outcome with
  | error c => exact ⟨rfl, hnotes, l, r, hx, hy⟩
  | ok v =>
    refine ⟨rfl, ?_, l, r ++ (f v).findings, ?_, ?_⟩
    · dsimp only
      rw [hnotes]
    · dsimp only
      rw [hx, List.append_assoc]
    · dsimp only
      rw [hy, List.append_assoc]

/-- The statement is in the second run of two. -/
theorem bind_right (h : ∀ v, x.Ends type? v → (f v).Trims type? fs (g v)) :
    (x >>= f).Trims type? fs (x >>= g) := by
  rintro ⟨w, hw⟩
  have hfirst : ∃ v, x.Ends type? v ∧ ((f v).Ends type? w ∨ (g v).Ends type? w) := by
    rcases hw with hw | hw
    · obtain ⟨v, hv, hrest⟩ := hw.of_bind
      exact ⟨v, hv, .inl hrest⟩
    · obtain ⟨v, hv, hrest⟩ := hw.of_bind
      exact ⟨v, hv, .inr hrest⟩
  obtain ⟨v, hv, hrest⟩ := hfirst
  obtain ⟨hout, hnotes, l, r, hx, hy⟩ := h v hv ⟨w, hrest⟩
  rw [bind_of_ok hv.1, bind_of_ok hv.1]
  refine ⟨hout, ?_, x.findings ++ l, r, ?_, ?_⟩
  · dsimp only
    rw [hnotes]
  · dsimp only
    rw [hx, List.append_assoc, List.append_assoc, List.append_assoc]
  · dsimp only
    rw [hy, List.append_assoc]

/-- One of several runs is trimmed. -/
theorem forM {f : α → Checked Unit} {u w : α} (h : (f u).Trims type? fs (f w))
    (before after : List α) :
    ((before ++ u :: after).forM f).Trims type? fs ((before ++ w :: after).forM f) := by
  simp only [List.forM_eq_forM, List.forM_append, List.forM_cons]
  exact bind_right fun _ _ => h.bind_left

end Trims

end Checked

/-! ### Blocks -/

/-- What is found of a statement that is not reached. -/
def Expr.deadFindings (path : String) (e : Expr) : List Finding :=
  if e.isVoid then [] else [⟨path, e.pos, .unreachableCode⟩]

namespace Scope

open Checked (Trims)

variable {s : Scope} {type? : NodeId → Option TypeId} {fs : List Finding} {ret : TypeId}

/-- After a statement that never completes no other is checked. -/
theorem checkBlock_unreachable (l : List Expr) : s.checkBlock ret .unreachable l =
    ⟨[], l.flatMap (Expr.deadFindings s.path), .ok .unreachable⟩ := by
  induction l with
  | nil => rfl
  | cons e l ih =>
    rw [checkBlock, if_pos rfl, ih, List.flatMap_cons, Expr.deadFindings]
    cases e.isVoid <;> rfl

/-- A statement behind one that never completes is at most found to be there. -/
theorem trims_checkBlock (y : Expr) (after : List Expr) : ∀ (before : List Expr) {last : TypeId},
    (last = .unreachable ∨ ∃ x ∈ before, Expr.diverges type? x) →
      (s.checkBlock ret last (before ++ y :: after)).Trims type? (y.deadFindings s.path)
        (s.checkBlock ret last (before ++ after)) := by
  have hdead : ∀ before : List Expr,
      (s.checkBlock ret .unreachable (before ++ y :: after)).Trims type? (y.deadFindings s.path)
        (s.checkBlock ret .unreachable (before ++ after)) := by
    intro before _
    rw [checkBlock_unreachable, checkBlock_unreachable]
    exact ⟨rfl, rfl, before.flatMap (Expr.deadFindings s.path),
      after.flatMap (Expr.deadFindings s.path), by simp, by simp⟩
  intro before
  induction before with
  | nil =>
    rintro last (rfl | ⟨x, hx, -⟩)
    · exact hdead []
    · cases hx
  | cons e before ih =>
    intro last hlast
    by_cases hun : last = .unreachable
    · rw [hun]
      exact hdead (e :: before)
    · obtain ⟨x, hx, hdiv⟩ := hlast.resolve_left hun
      rw [List.cons_append, List.cons_append, checkBlock, checkBlock, if_neg hun, if_neg hun]
      refine .bind_right fun t ht => ih ?_
      rcases List.mem_cons.mp hx with rfl | hx
      · -- the statement is the one that is told never to complete
        have htype := (marks_of_check ret x ⟨ht.1, rfl⟩ ht.2).2
        rw [Expr.diverges, htype] at hdiv
        exact .inl (Option.some.inj (of_decide_eq_true hdiv))
      · exact .inr ⟨x, hx, hdiv⟩

/-! ### Around a block -/

section

variable {part new e e' : Expr}

theorem trims_checkOptional {E : Option TypeId}
    (h : (s.check ret E e).Trims type? fs (s.check ret E e')) :
    (s.checkOptional ret E (some e)).Trims type? fs (s.checkOptional ret E (some e')) := by
  rw [checkOptional, checkOptional]
  exact h.bind_left

theorem trims_checkArgs (h : ∀ E, (s.check ret E e).Trims type? fs (s.check ret E e'))
    (before after : List Expr) (params : List (Option TypeId)) :
    (s.checkArgs ret params (before ++ e :: after)).Trims type? fs
      (s.checkArgs ret params (before ++ e' :: after)) := by
  induction before generalizing params with
  | nil =>
    rw [List.nil_append, List.nil_append, checkArgs, checkArgs]
    exact (h _).bind_left
  | cons x before ih =>
    rw [List.cons_append, List.cons_append, checkArgs, checkArgs]
    exact .bind_right fun _ _ => ih params.tail

theorem trims_statement (h : ∀ E, (s.check ret E e).Trims type? fs (s.check ret E e'))
    (after : List Expr) : ∀ (before : List Expr) {last : TypeId},
    (∀ x ∈ before, Expr.diverges type? x = false) → last ≠ .unreachable →
      (s.checkBlock ret last (before ++ e :: after)).Trims type? fs
        (s.checkBlock ret last (before ++ e' :: after))
  | [], last, _, hlast => by
    rw [List.nil_append, List.nil_append, checkBlock, checkBlock, if_neg hlast, if_neg hlast]
    exact (h _).bind_left
  | x :: before, last, hbefore, hlast => by
    obtain ⟨hx, hbefore⟩ := List.forall_mem_cons.mp hbefore
    rw [List.cons_append, List.cons_append, checkBlock, checkBlock, if_neg hlast, if_neg hlast]
    refine .bind_right fun t ht => trims_statement h after before hbefore ?_
    have htype := (marks_of_check ret x ⟨ht.1, rfl⟩ ht.2).2
    rintro rfl
    rw [Expr.diverges, htype] at hx
    exact absurd hx (by decide)

theorem trims_call (h : ∀ E, (s.check ret E e).Trims type? fs (s.check ret E e'))
    (before after : List Expr) (E : Option TypeId) (n m : Node) (name : String) :
    (s.check ret E (.call n (.symbol m name) (before ++ e :: after))).Trims type? fs
      (s.check ret E (.call n (.symbol m name) (before ++ e' :: after))) := by
  rw [check, check]
  cases s.analysis.lookupFunction s.file name with
  | none => exact .bind_right fun _ _ => (trims_checkArgs h before after []).bind_left
  | some k =>
    refine .bind_right fun sig _ => ?_
    have hrest := (trims_checkArgs h before after sig.1).bind_left
      (f := fun _ => s.conclude n E sig.2)
    simp only [List.length_append, List.length_cons]
    split
    · exact .bind_right fun _ _ => hrest
    · exact hrest

/-- Where a live part is trimmed, so is what encloses it. -/
theorem trims_of_swap (hpart : ∀ E, (s.check ret E part).Trims type? fs (s.check ret E new))
    (hnew : ∀ m name, new ≠ .symbol m name)
    (hswap : Expr.Swap (Expr.diverges type?) part new e e') :
    ∀ E, (s.check ret E e).Trims type? fs (s.check ret E e') := by
  induction hswap with
  | here => exact hpart
  | statement n hbefore _ ih =>
    intro E
    rw [check, check]
    exact (trims_statement ih _ _ hbefore (by decide)).bind_left
  | ret n _ ih =>
    intro E
    rw [check, check]
    exact (trims_checkOptional (ih _)).bind_left
  | left n op r _ ih =>
    intro E
    rw [check, check]
    exact .bind_right fun _ _ => (ih _).bind_left
  | right n op l _ ih =>
    intro E
    rw [check, check]
    exact .bind_right fun _ _ => .bind_right fun _ _ => (ih _).bind_left
  | operand n op _ ih =>
    intro E
    rw [check, check]
    exact .bind_right fun _ _ => (ih _).bind_left
  | @callee n args c c' hc hswap _ =>
    -- nothing but a name can be called
    intro E
    have hc' : ∀ m name, c' ≠ .symbol m name := by
      cases hswap with
      | here => exact hnew
      | _ => exact fun _ _ => Expr.noConfusion
    cases c with
    | symbol m name => exact absurd rfl (hc m name)
    | _ =>
      cases c' with
      | symbol m name => exact absurd rfl (hc' m name)
      | _ => exact .of_error rfl rfl
  | @argument n c before after e e' _ ih =>
    intro E
    cases c with
    | symbol m name => exact trims_call ih before after E n m name
    | _ => exact .of_error rfl rfl
  | cast n t _ _ =>
    intro E
    exact .of_error rfl rfl
  | condition n th el _ ih =>
    intro E
    rw [check, check]
    exact (ih _).bind_left
  | thenBranch n c el _ ih =>
    intro E
    rw [check, check]
    exact .bind_right fun _ _ => .bind_right fun _ _ => (ih _).bind_left
  | elseBranch n c th _ ih =>
    intro E
    rw [check, check]
    exact .bind_right fun _ _ => (trims_checkOptional (ih _)).bind_left

end

end Scope

/-! ### Programs -/

namespace Program

variable {p q : Program} {c : FileContext} {d : FnDef} {body : Expr} {options : BuildOptions}

theorem Rebodied.trims_checkFiles {type? : NodeId → Option TypeId} {fs : List Finding}
    (h : p.Rebodied q c d body) {s : Analysis} (hskip : s.notes.isSkipped d.node.id = false)
    (hbody : ∀ ret E, (Scope.check ⟨s, c.index, c.path⟩ ret E d.body).Trims type? fs
      (Scope.check ⟨s, c.index, c.path⟩ ret E body)) :
    (s.checkFiles 0 p.files).Trims type? fs (s.checkFiles 0 q.files) := by
  obtain ⟨before, after, hp, hq⟩ := h.decls_eq
  rw [Analysis.checkFiles_eq p.entry.toNat, Analysis.checkFiles_eq q.entry.toNat]
  change Checked.Trims type? fs (p.decls.forM _) (q.decls.forM _)
  rw [hp, hq]
  refine .forM ?_ before after
  simp only [Scope.checkDecl, Scope.checkDefinition, hskip, Bool.false_eq_true, if_false]
  exact .bind_right fun ret _ => (hbody ret _).bind_left

/-- What a result is made of. -/
theorem ends_of_analyze {s a : Analysis}
    (hs : (Analysis.initial options).readFiles p.entry.toNat 0 p.files = .ok s)
    (ha : p.analyze options = .ok a) : (s.checkFiles 0 p.files).outcome = .ok () ∧
      s.notes.recordAll (s.checkFiles 0 p.files).notes = .ok a.notes ∧
      a = { s with notes := a.notes, findings := a.findings } := by
  obtain ⟨_, notes, hs', hnotes, hok, rfl⟩ := analyze_eq_ok_iff.mp ha
  obtain rfl := Except.ok.inj (hs.symm.trans hs')
  exact ⟨hok, hnotes, rfl⟩

/-- Where one of two programs has a result, and they differ in a statement that is not reached, both
have this result but for what is found of the statement. -/
theorem Rebodied.analyze_eq {n : Node} {l r : List Expr} {x y : Expr} {a : Analysis}
    (h : p.Rebodied q c d (Expr.replace n.id (.block n (l ++ r)) d.body)) (hids : p.ids.Nodup)
    (hkept : (c, d) ∉ p.redefinitions)
    (ha : p.analyze options = .ok a ∨ q.analyze options = .ok a)
    (hlive : .block n (l ++ y :: r) ∈ d.body.live (Expr.diverges a.notes.exprType?)) (hx : x ∈ l)
    (htype : a.notes.exprType? x.id = some .unreachable) :
    ∃ fs gs, p.analyze options = .ok { a with findings := fs ++ y.deadFindings c.path ++ gs } ∧
      q.analyze options = .ok { a with findings := fs ++ gs } := by
  obtain ⟨s, hs⟩ := exists_signatures hids options
  have hs' : (Analysis.initial options).readFiles q.entry.toNat 0 q.files = .ok s :=
    (h.readFiles_eq _).trans hs
  obtain ⟨hfiled, hruns⟩ := signatures_ok hs
  obtain ⟨before, after, hp, -⟩ := h.decls_eq
  have hdecl : (c, Decl.fnDef d) ∈ p.decls := by rw [hp]; simp
  obtain ⟨rd, hr, hdr, -⟩ := mem_kept_iff.mp
    ((mem_kept_iff_not_mem_redefinitions hids).mpr ⟨hdecl, hkept⟩)
  have hskip := not_isSkipped_of_kept hids hruns hfiled.sound.distinct hr d hdr
  -- ids are distinct in the body, so it is the block alone that is replaced
  have hparts : (d.body.parts.map Expr.id).Nodup := by
    have hdeclIds := (List.nodup_flatMap.mp hids).1 _ hdecl
    exact hdeclIds.of_append_left.of_append_right
  have hswap : Expr.Swap (Expr.diverges a.notes.exprType?) (.block n (l ++ y :: r))
      (.block n (l ++ r)) d.body (Expr.replace n.id (.block n (l ++ r)) d.body) :=
    Expr.swap_replace d.body hlive hparts
  have hdead : Expr.diverges a.notes.exprType? x := by rw [Expr.diverges, htype]; rfl
  have hpart : ∀ ret E, Checked.Trims a.notes.exprType? (y.deadFindings c.path)
      (Scope.check ⟨s, c.index, c.path⟩ ret E (.block n (l ++ y :: r)))
      (Scope.check ⟨s, c.index, c.path⟩ ret E (.block n (l ++ r))) := by
    intro ret E
    rw [Scope.check, Scope.check]
    exact (Scope.trims_checkBlock y r l (.inr ⟨x, hx, hdead⟩)).bind_left
  have htrims := h.trims_checkFiles hskip fun ret =>
    Scope.trims_of_swap (hpart ret) (fun _ _ => Expr.noConfusion) hswap
  -- either result tells the types that its own notes have
  have hends : ∃ v, (s.checkFiles 0 p.files).Ends a.notes.exprType? v ∨
      (s.checkFiles 0 q.files).Ends a.notes.exprType? v := by
    rcases ha with ha | ha
    · obtain ⟨hok, hnotes, -⟩ := ends_of_analyze hs ha
      exact ⟨(), .inl ⟨hok, Scope.agrees_of_recordedAll (Notes.recordedAll hnotes)⟩⟩
    · obtain ⟨hok, hnotes, -⟩ := ends_of_analyze hs' ha
      exact ⟨(), .inr ⟨hok, Scope.agrees_of_recordedAll (Notes.recordedAll hnotes)⟩⟩
  obtain ⟨hout, hnotes, before, after, hp, hq⟩ := htrims hends
  have houtput := Analysis.outputFindings_congr h.programPlace_eq s.output
  -- so the other result has the same notes
  obtain ⟨hok, hrecorded, hbare⟩ : (s.checkFiles 0 p.files).outcome = .ok () ∧
      s.notes.recordAll (s.checkFiles 0 p.files).notes = .ok a.notes ∧
      a = { s with notes := a.notes, findings := a.findings } := by
    rcases ha with ha | ha
    · obtain ⟨hok, hrecorded, ha⟩ := ends_of_analyze hs ha
      exact ⟨hok, hrecorded, by rw [ha]⟩
    · obtain ⟨hok, hrecorded, ha⟩ := ends_of_analyze hs' ha
      exact ⟨hout ▸ hok, hnotes ▸ hrecorded, by rw [ha]⟩
  refine ⟨s.findings ++ before, after ++ Analysis.outputFindings p s.output, ?_, ?_⟩
  · refine analyze_eq_ok_iff.mpr ⟨s, a.notes, hs, hrecorded, hok, ?_⟩
    rw [hp, hbare]
    simp only [List.append_assoc]
  · refine analyze_eq_ok_iff.mpr ⟨s, a.notes, hs', hnotes ▸ hrecorded, hout.trans hok, ?_⟩
    rw [hq, houtput, hbare]
    simp only [List.append_assoc]

/-- What is not analyzed has no effect. Without a definition that repeats a name a program gives the
same result but for the note and the finding on this definition, or it stops as before. Without a
statement that comes, in a live block, behind one of type `unreachable` it gives the same result but
for what is found of the statement, and it gives one if and only if it gave one before. -/
theorem analyze_inert (p : Program) (options : BuildOptions) (hids : p.ids.Nodup) :
    (∀ (q : Program) (c : FileContext) (d : FnDef), p.Without q c d → (c, d) ∈ p.redefinitions →
      (∀ e, p.analyze options = .error e ↔ q.analyze options = .error e) ∧
      ∀ a, p.analyze options = .ok a → ∃ ls rs fs gs,
        a.notes.slots = ls ++ (d.node.id, .fnDef true none) :: rs ∧
        a.findings = fs ++ ⟨c.path, d.node.pos, .redefinition d.proto.name⟩ :: gs ∧
        q.analyze options = .ok { a with notes := ⟨ls ++ rs⟩, findings := fs ++ gs }) ∧
    ∀ (q : Program) (c : FileContext) (d : FnDef) (n : Node) (l r : List Expr) (x y : Expr)
      (a : Analysis), (c, d) ∉ p.redefinitions →
      p.Rebodied q c d (Expr.replace n.id (.block n (l ++ r)) d.body) →
      (p.analyze options = .ok a ∨ q.analyze options = .ok a) →
      .block n (l ++ y :: r) ∈ d.body.live (Expr.diverges a.notes.exprType?) → x ∈ l →
      a.notes.exprType? x.id = some .unreachable →
      ∃ fs gs, p.analyze options = .ok { a with findings := fs ++ y.deadFindings c.path ++ gs } ∧
        q.analyze options = .ok { a with findings := fs ++ gs } :=
  ⟨fun _ _ _ h hred => h.analyze_eq hids hred,
    fun _ _ _ _ _ _ _ _ _ hkept h ha hlive hx htype => h.analyze_eq hids hkept ha hlive hx htype⟩

/-- `{ return 1; x }`, where `x` is of no supported kind. -/
def deadEnd : Expr :=
  .block (.numbered 40) [.ret (.numbered 41) (some (.number (.numbered 42) "1")),
    .symbol (.numbered 43) "x"]

/-- `{ return 1; }`. -/
def openEnd : Expr :=
  .block (.numbered 40) [.ret (.numbered 41) (some (.number (.numbered 42) "1"))]

/-- A second `main`, of an unknown type, whose body is of no supported kind. -/
def secondMain : FnDef :=
  ⟨.numbered 50, ⟨.numbered 51, "main", .exported, [], .named (.numbered 52) "nowhere", []⟩,
    .symbol (.numbered 53) "x"⟩

/-- The sample program with such a body of `main`, and with more definitions behind it. -/
def sampleEnding (body : Expr) (more : List FnDef) : Program where
  files := sample.files.modify 0 fun f => { f with
    decls := f.decls.set 2 (.fnDef { FnDef.sample with body := body }) ++ more.map .fnDef }
  entry := 0

theorem cluttered_without : (sampleEnding deadEnd [secondMain]).Without (sampleEnding deadEnd [])
    ⟨0, "main.kiln", true⟩ secondMain where
  entry := rfl
  files := ⟨[], sample.files.drop 1, ⟨"main.kiln", .numbered 15, []⟩,
    (sample.files.flatMap (·.decls)).take 2 ++ [.fnDef { FnDef.sample with body := deadEnd }], [],
    rfl, rfl, rfl⟩

theorem cluttered_rebodied : (sampleEnding deadEnd [secondMain]).Rebodied
    (sampleEnding openEnd [secondMain]) ⟨0, "main.kiln", true⟩ { FnDef.sample with body := deadEnd }
    openEnd where
  entry := rfl
  files := ⟨[], sample.files.drop 1, ⟨"main.kiln", .numbered 15, []⟩,
    (sample.files.flatMap (·.decls)).take 2, [.fnDef secondMain], rfl, rfl, rfl⟩

theorem cluttered_redefinitions : (sampleEnding deadEnd [secondMain]).redefinitions =
    [(⟨0, "main.kiln", true⟩, secondMain)] := rfl

/-- Neither the second `main` nor the end of the first is analyzed. -/
theorem cluttered_inert : ∃ a, (sampleEnding deadEnd [secondMain]).analyze .none = .ok a ∧
    (∃ ls rs fs gs, a.notes.slots = ls ++ (⟨50⟩, .fnDef true none) :: rs ∧
      a.findings = fs ++ ⟨"main.kiln", .start, .redefinition "main"⟩ :: gs ∧
      (sampleEnding deadEnd []).analyze .none =
        .ok { a with notes := ⟨ls ++ rs⟩, findings := fs ++ gs }) ∧
    ∃ fs gs, a.findings = fs ++ ⟨"main.kiln", .start, .unreachableCode⟩ :: gs ∧
      (sampleEnding openEnd [secondMain]).analyze .none = .ok { a with findings := fs ++ gs } := by
  have hrun : ((sampleEnding deadEnd [secondMain]).analyze .none).map
      (fun a => a.notes.exprType? ⟨41⟩) = .ok (some .unreachable) := by
    decide +kernel
  obtain ⟨a, ha, htype⟩ := map_eq_ok_iff.mp hrun
  obtain ⟨hleft, hdead⟩ := analyze_inert (sampleEnding deadEnd [secondMain]) .none (by decide)
  have hkept : ((⟨0, "main.kiln", true⟩, { FnDef.sample with body := deadEnd }) :
      FileContext × FnDef) ∉ (sampleEnding deadEnd [secondMain]).redefinitions := by
    intro hmem
    rw [cluttered_redefinitions, List.mem_singleton] at hmem
    exact absurd (congrArg (·.2.node.id) hmem) (by decide)
  refine ⟨a, ha, (hleft _ _ _ cluttered_without ?_).2 a ha, ?_⟩
  · rw [cluttered_redefinitions]
    exact List.mem_singleton_self _
  obtain ⟨fs, gs, hp, hq⟩ := hdead _ _ _ (.numbered 40)
    [.ret (.numbered 41) (some (.number (.numbered 42) "1"))] [] _ (.symbol (.numbered 43) "x") a
    hkept cluttered_rebodied (.inl ha) (List.mem_append_right _ (List.mem_singleton_self _))
    (List.mem_singleton_self _) htype
  refine ⟨fs, gs, ?_, hq⟩
  have heq := congrArg Analysis.findings (Except.ok.inj (ha.symm.trans hp))
  rw [heq, List.append_assoc]
  rfl

end Program

end Sema
