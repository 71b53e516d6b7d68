import Sema.Proofs.Analyzed

/-!
Safety of an analysis: for whatever program, no handle ever leads outside of its table and no note that
is wanted is missing.
-/

namespace Sema

/-! ### Bodies -/

/-- Whether the types of a note are in a table. -/
def TypeTable.Covers (t : TypeTable) (s : NodeId × Note) : Prop := ∀ i ∈ s.2.types, t.Has i

/-- Whether an issue is one of bodies; a mismatch must be one of two types of the table. -/
def TypeTable.Explains (t : TypeTable) : Issue → Prop
  | .mismatch E A => ∃ e a, t.name? e = some E ∧ t.name? a = some A ∧ ¬ e.accepts a
  | issue => issue.ofBody

theorem TypeTable.Explains.ofBody {t : TypeTable} {issue : Issue} (h : t.Explains issue) :
    issue.ofBody := by
  cases issue with
  | mismatch E A => rfl
  | _ => exact h

theorem BinaryOp.rule_builtin {op : BinaryOp} {r : OperatorRule} (h : op.rule = .ok r) :
    r.operand.index < 7 ∧ r.result.index < 7 := by
  cases op <;> simp only [rule, Except.ok.injEq, reduceCtorEq] at h
  all_goals
    subst h
    decide

theorem UnaryOp.rule_builtin {op : UnaryOp} {r : OperatorRule} (h : op.rule = .ok r) :
    r.operand.index < 7 ∧ r.result.index < 7 := by
  cases op <;> simp only [rule, Except.ok.injEq, reduceCtorEq] at h
  subst h
  decide

namespace Scope

open Checked (Ensures)

variable {s : Scope}

/-- What is wanted of a scope to check bodies safely. -/
structure Safe (s : Scope) : Prop where
  types : s.analysis.types.WellFormed
  linked : s.analysis.Linked
  signatures : ∀ name sig, s.analysis.env s.file name = some sig →
    (∀ i ∈ sig.params, s.analysis.types.Has i) ∧ s.analysis.types.Has sig.result

section

variable {N : NodeId × Note → Prop} {F : Issue → Prop}

theorem ensures_typeName {t : TypeId} (ht : s.analysis.types.Has t) :
    (s.typeName t).Ensures N F fun name => s.analysis.types.name? t = some name := by
  obtain ⟨name, hname⟩ := TypeTable.has_iff_name?.mp ht
  rw [typeName, hname]
  exact .pure rfl

theorem ensures_compare {pos : Position} {E : Option TypeId} {t : TypeId}
    (hE : ∀ e ∈ E, s.analysis.types.Has e) (ht : s.analysis.types.Has t) :
    (s.compare pos E t).Ensures N s.analysis.types.Explains fun _ => True := by
  cases E with
  | none => exact .pure trivial
  | some e =>
    rw [compare]
    split
    · exact .pure trivial
    · next hne =>
      refine (ensures_typeName (hE e rfl)).bind fun _ he => ?_
      exact (ensures_typeName ht).bind fun _ ht => .report ⟨e, t, he, ht, hne⟩

end

theorem ensures_conclude {node : Node} {E : Option TypeId} {t : TypeId}
    (hE : ∀ e ∈ E, s.analysis.types.Has e) (ht : s.analysis.types.Has t) :
    (s.conclude node E t).Ensures s.analysis.types.Covers s.analysis.types.Explains
      s.analysis.types.Has := by
  refine (ensures_compare hE ht).bind fun _ _ => ?_
  refine Ensures.bind (P := fun _ => True) (.note ?_) fun _ _ => .pure ht
  exact List.forall_mem_singleton.mpr ht

theorem ensures_concludeReturn {node : Node} {ret t : TypeId} (h : s.Safe)
    (hret : s.analysis.types.Has ret) (ht : s.analysis.types.Has t) :
    (s.concludeReturn node ret t).Ensures s.analysis.types.Covers s.analysis.types.Explains
      fun _ => True := by
  unfold concludeReturn
  split
  · exact Ensures.bind (P := fun _ => True) (.report rfl) fun _ _ =>
      ensures_compare hret.forall_mem_some (h.types.has_builtin (by decide))
  · exact ensures_compare hret.forall_mem_some ht

section

variable {ret : TypeId}

mutual

/-- Checking an expression is safe. -/
theorem ensures_check (h : s.Safe) (hret : s.analysis.types.Has ret) :
    ∀ (e : Expr) {E : Option TypeId}, (∀ t ∈ E, s.analysis.types.Has t) →
      (s.check ret E e).Ensures s.analysis.types.Covers s.analysis.types.Explains
        s.analysis.types.Has
  | .number _ _, _, hE => ensures_conclude hE (h.types.has_builtin (by decide))
  | .string _ _, _, hE => ensures_conclude hE (h.types.has_builtin (by decide))
  | .unreachable _, _, hE => ensures_conclude hE (h.types.has_builtin (by decide))
  | .void _, _, hE => ensures_conclude hE (h.types.has_builtin (by decide))
  | .symbol _ _, _, _ => .fail rfl
  | .cast _ _ _, _, _ => .fail rfl
  | .binary n op l r, E, hE => by
    rw [check]
    refine Ensures.bind (.ofExcept (fun _ => rfl) fun _ => BinaryOp.rule_builtin) fun rule hr => ?_
    have hoperand := (h.types.has_builtin hr.1).forall_mem_some
    refine (ensures_check h hret l hoperand).bind fun _ _ => ?_
    refine (ensures_check h hret r hoperand).bind fun _ _ => ?_
    exact ensures_conclude hE (h.types.has_builtin hr.2)
  | .unary n op e, E, hE => by
    rw [check]
    refine Ensures.bind (.ofExcept (fun _ => rfl) fun _ => UnaryOp.rule_builtin) fun rule hr => ?_
    have hoperand := (h.types.has_builtin hr.1).forall_mem_some
    refine (ensures_check h hret e hoperand).bind fun _ _ => ?_
    exact ensures_conclude hE (h.types.has_builtin hr.2)
  | .block n l, E, hE => by
    rw [check]
    refine (ensures_checkBlock h hret l (h.types.has_builtin (by decide))).bind fun _ ht => ?_
    exact ensures_conclude hE ht
  | .ret n v, E, hE => by
    rw [check]
    refine (ensures_checkOptional h hret v hret.forall_mem_some).bind fun t ht => ?_
    have hvalue : s.analysis.types.Has (t.getD .void) :=
      TypeTable.has_getD ht (h.types.has_builtin (by decide))
    refine (ensures_concludeReturn h hret hvalue).bind fun _ _ => ?_
    exact ensures_conclude hE (h.types.has_builtin (by decide))
  | .cond n c th el, E, hE => by
    have hbool : s.analysis.types.Has .bool := h.types.has_builtin (by decide)
    rw [check]
    refine (ensures_check h hret c hbool.forall_mem_some).bind fun _ _ => ?_
    refine (ensures_checkOptional h hret el hE).bind fun u hu => ?_
    refine (ensures_check h hret th hE).bind fun t ht => ?_
    refine (ensures_compare ?_ ?_).bind fun _ _ => ensures_conclude hE ht
    · split
      · exact ht.forall_mem_some
      · exact hE
    · exact TypeTable.has_getD hu (h.types.has_builtin (by decide))
  | .call n callee args, E, hE => by
    cases callee with
    | symbol m name =>
      rw [check]
      rcases h.linked.env_cases s.file s.path name with ⟨hl, -⟩ | ⟨k, sig, hl, henv, hsig⟩
      · rw [hl]
        refine Ensures.bind (P := fun _ => True) (.report rfl) fun _ _ => ?_
        refine (ensures_checkArgs h hret args (by simp)).bind fun _ _ => ?_
        exact ensures_conclude hE (h.types.has_builtin (by decide))
      · obtain ⟨hparams, hresult⟩ := h.signatures name sig henv
        have hargs : ∀ p ∈ sig.params.map some, ∀ t ∈ p, s.analysis.types.Has t := by
          simpa using hparams
        simp only [hl, hsig]
        refine Ensures.bind (P := (· = (sig.params.map some, sig.result))) (.pure rfl) ?_
        rintro _ rfl
        have hself : (s.conclude n E sig.result).Ensures s.analysis.types.Covers
            s.analysis.types.Explains s.analysis.types.Has := ensures_conclude hE hresult
        have hrest := (ensures_checkArgs h hret args hargs).bind fun _ _ => hself
        dsimp only
        split
        · exact Ensures.bind (P := fun _ => True) (.report rfl) fun _ _ => hrest
        · exact hrest
    | _ => exact .fail rfl

theorem ensures_checkOptional (h : s.Safe) (hret : s.analysis.types.Has ret) :
    ∀ (e : Option Expr) {E : Option TypeId}, (∀ t ∈ E, s.analysis.types.Has t) →
      (s.checkOptional ret E e).Ensures s.analysis.types.Covers s.analysis.types.Explains
        fun t => ∀ u ∈ t, s.analysis.types.Has u
  | none, _, _ => .pure (by simp)
  | some e, _, hE => (ensures_check h hret e hE).bind fun _ ht => .pure ht.forall_mem_some

theorem ensures_checkBlock (h : s.Safe) (hret : s.analysis.types.Has ret) :
    ∀ (l : List Expr) {last : TypeId}, s.analysis.types.Has last →
      (s.checkBlock ret last l).Ensures s.analysis.types.Covers s.analysis.types.Explains
        s.analysis.types.Has
  | [], _, hlast => .pure hlast
  | e :: rest, last, hlast => by
    rw [checkBlock]
    split
    · have hrest := ensures_checkBlock h hret rest hlast
      dsimp only
      split
      · exact Ensures.bind (P := fun _ => True) (.report rfl) fun _ _ => hrest
      · exact hrest
    · refine (ensures_check h hret e (by simp)).bind fun _ ht => ?_
      exact ensures_checkBlock h hret rest ht

theorem ensures_checkArgs (h : s.Safe) (hret : s.analysis.types.Has ret) :
    ∀ (l : List Expr) {params : List (Option TypeId)},
      (∀ p ∈ params, ∀ t ∈ p, s.analysis.types.Has t) →
        (s.checkArgs ret params l).Ensures s.analysis.types.Covers s.analysis.types.Explains
          fun _ => True
  | [], _, _ => .pure trivial
  | e :: rest, params, hp => by
    rw [checkArgs]
    refine (ensures_check h hret e (TypeTable.has_head?_join hp)).bind fun _ _ => ?_
    exact ensures_checkArgs h hret rest fun p hpm => hp p (List.mem_of_mem_tail hpm)

end

end

/-! ### Declarations -/

variable {a : Analysis} {n : Nat}

theorem safe_of_filed (h : a.Filed n) (file : Nat) (path : String) : Safe ⟨a, file, path⟩ :=
  ⟨h.sound.types, h.linked, fun _ _ hs =>
    Analysis.env_forall (fun _ _ hn => (h.sound.valid.resolvedType? hn).1) hs⟩

/-- A body is checked safely if it is left out or its function is registered. -/
theorem ensures_checkDefinition (h : a.Filed n) {file : Nat} {path : String} {d : FnDef}
    (hreg : a.notes.isSkipped d.node.id = false →
      .defined d.proto d.node.id file ∈ a.functions) :
    (checkDefinition ⟨a, file, path⟩ d).Ensures a.types.Covers a.types.Explains fun _ => True := by
  rw [checkDefinition]
  split
  · exact .pure trivial
  · next hskip =>
    have hmem := hreg (Bool.not_eq_true _ ▸ hskip)
    obtain ⟨r, hr, hhas, -⟩ := (h.sound.resolves hmem d.proto.returnType_mem_types).resolvedType?
    rw [resolvedType, hr]
    refine Ensures.bind (P := a.types.Has) (.pure hhas) fun r hr => ?_
    have hbody := ensures_check (safe_of_filed h file path) hr d.body hr.forall_mem_some
    refine hbody.bind fun t ht => ?_
    exact .note (List.forall_mem_singleton.mpr ht)

theorem ensures_checkDecl (h : a.Filed n) {file : Nat} {path : String} {d : Decl}
    (hreg : ∀ f, d = .fnDef f → a.notes.isSkipped f.node.id = false →
      .defined f.proto f.node.id file ∈ a.functions) :
    (checkDecl ⟨a, file, path⟩ d).Ensures a.types.Covers a.types.Explains fun _ => True := by
  cases d with
  | fnDef d => exact ensures_checkDefinition h (hreg d rfl)
  | use u => exact .forM fun _ _ => .report rfl
  | externalBlock b => exact .pure trivial
  | rootExport e => exact .pure trivial

end Scope

/-! ### Programs -/

namespace Analysis

/-- Whether all handles lead into their tables, with one table of names for each file. -/
structure HandlesValid (a : Analysis) (files : Nat) : Prop where
  notes : ∀ n x, a.notes.get? n = some x → ∀ i ∈ x.types, a.types.Has i
  builtins : ∀ i ∈ [TypeId.void, .bool, .i32, .u8, .unreachable, .invalid, .stringLiteral],
    a.types.Has i
  /-- The table of types keeps the handles that it started with. -/
  unchanged : a.types.builtins = TypeTable.initial.builtins
  pointers : ∀ i e c, a.types.get? i = some e → e.shape = .pointer c → a.types.Has c
  names : ∀ name i, a.types.lookup? name = some i → a.types.Has i
  interned : ∀ c m i, a.types.pointers.lookup (c, m) = some i → a.types.Has c ∧ a.types.Has i
  globals : ∀ name f, a.globals.get? name = some f → f.index < a.functions.length
  locals : ∀ t ∈ a.locals, ∀ name f, t.get? name = some f → f.index < a.functions.length
  definitions : ∀ f ∈ a.definitionIds, f.index < a.functions.length
  count : a.locals.length = files

/-- The handles are valid after the signatures, and stay so when more notes are written. -/
theorem Filed.handlesValid {a : Analysis} {n : Nat} (h : a.Filed n) {l : List (NodeId × Note)}
    {notes : Notes} (hl : ∀ s ∈ l, a.types.Covers s) (hn : a.notes.RecordedAll l notes)
    (fs : List Finding) : HandlesValid { a with notes := notes, findings := fs } n where
  notes := by
    intro m x hx i hi
    rcases hn.old_or_new m x hx with hold | hnew
    · exact (h.sound.valid m x hold i hi).1
    · exact hl _ hnew i hi
  builtins := by
    intro i hi
    refine h.sound.types.has_builtin ?_
    simp only [List.mem_cons, List.not_mem_nil, or_false] at hi
    rcases hi with rfl | rfl | rfl | rfl | rfl | rfl | rfl <;> decide
  unchanged := h.sound.types.builtins
  pointers := by
    intro i e c hi he
    obtain ⟨m, n, -, -, hn⟩ := h.sound.types.eq_pointer_of_shape hi he
    exact TypeTable.has_iff_name?.mpr ⟨n, hn⟩
  names _ _ hi := h.sound.types.has_of_lookup? hi
  interned := by
    intro c m i hi
    obtain ⟨n, hget⟩ := h.sound.types.lookup_pointers_eq_some_iff.mp hi
    obtain ⟨-, k, -, -, hk⟩ := h.sound.types.eq_pointer_of_shape hget rfl
    exact ⟨TypeTable.has_iff_name?.mpr ⟨k, hk⟩, TypeTable.has_iff_get?.mpr ⟨_, hget⟩⟩
  globals := by
    intro name f hf
    exact Function.lt_of_latest ((h.sound.globals name).symm.trans hf)
  locals := by
    intro t ht name f hf
    obtain ⟨j, hj⟩ := List.getElem?_of_mem ht
    have hown := h.locals j name
    rw [hj, Option.bind_some, hf] at hown
    exact Function.lt_of_latest hown.symm
  definitions := by
    intro f hf
    exact Function.lt_of_mem_handles (h.sound.definitions ▸ hf)
  count := h.count

end Analysis

namespace Program

variable {p : Program} {options : BuildOptions} {a : Analysis}

/-- After the signatures all bodies are checked safely. -/
theorem ensures_checkFiles
    (h : (Analysis.initial options).readFiles p.entry.toNat 0 p.files = .ok a) :
    (a.checkFiles 0 p.files).Ensures a.types.Covers a.types.Explains fun _ => True := by
  obtain ⟨hfiled, hruns⟩ := signatures_ok h
  rw [Analysis.checkFiles_eq p.entry.toNat]
  refine .forM fun x hx => Scope.ensures_checkDecl hfiled fun d hd hskip => ?_
  obtain ⟨c, _⟩ := x
  subst hd
  exact mem_functions_of_not_skipped hruns hx hskip

/-- For whatever program, analysis ends with a result whose handles are all valid, or it stops at a
construct without a rule or at a node with two notes. Nothing else stops either pass, and names are
looked up in tables that are there. -/
theorem analyze_safe (p : Program) (options : BuildOptions) :
    (∀ e, (Analysis.initial options).readFiles p.entry.toNat 0 p.files = .error e →
      ∃ n, e = .alreadyAnnotated n) ∧
    (∀ a, (Analysis.initial options).readFiles p.entry.toNat 0 p.files = .ok a →
      (∀ x ∈ p.decls, x.1.index < a.locals.length) ∧
      ∀ e, (a.checkFiles 0 p.files).outcome = .error e → e.isUnsupported) ∧
    (∀ e, p.analyze options = .error e → e.isUnsupported ∨ ∃ n, e = .alreadyAnnotated n) ∧
    ∀ a, p.analyze options = .ok a → a.HandlesValid p.files.length := by
  have hread : ∀ e, (Analysis.initial options).readFiles p.entry.toNat 0 p.files = .error e →
      ∃ n, e = .alreadyAnnotated n := fun e h => (signatures_error h).1
  have hcheck : ∀ a, (Analysis.initial options).readFiles p.entry.toNat 0 p.files = .ok a →
      ∀ e, (a.checkFiles 0 p.files).outcome = .error e → e.isUnsupported :=
    fun a ha e he => (ensures_checkFiles ha).error e he
  refine ⟨hread, fun a ha => ⟨fun x hx => ?_, hcheck a ha⟩, fun e he => ?_, fun b hb => ?_⟩
  · rw [(signatures_ok ha).1.count]
    exact index_lt_of_mem_decls hx
  · simp only [analyze, Analysis.absorb, bind_eq_error_iff] at he
    rcases he with he | ⟨a, ha, he | ⟨_, -, he⟩⟩
    · exact .inr (hread e he)
    · rcases he with he | ⟨notes, -, he⟩
      · exact .inr (Notes.recordAll_eq_error he)
      · rcases he with he | ⟨_, -, he⟩
        · exact .inl (hcheck a ha e he)
        · cases he
    · cases he
  · obtain ⟨a, notes, ha, hnotes, -, rfl⟩ := analyze_eq_ok_iff.mp hb
    exact (signatures_ok ha).1.handlesValid (ensures_checkFiles ha).notes (Notes.recordedAll hnotes) _

theorem sample_handlesValid : ∃ a, sample.analyze .none = .ok a ∧ a.HandlesValid 2 := by
  obtain ⟨a, ha, -⟩ := sample_ok
  exact ⟨a, ha, (analyze_safe sample .none).2.2.2 a ha⟩

end Program

end Sema
