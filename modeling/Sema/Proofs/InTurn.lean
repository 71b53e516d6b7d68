import Sema.Proofs.Coverage

/-!
Bodies in turn. All bodies are checked against what the signatures have left, and what they give is
written down at the end. It is the same when each body is checked against what the bodies before it
have left: of the notes a body reads those on written types and on definitions that are left out,
and it writes neither.
-/

namespace Sema

/-- Checks a declaration against the analysis as it stands, and writes down what that gives. -/
def Analysis.checkNext (a : Analysis) (x : FileContext × Decl) : Except AnalysisError Analysis :=
  a.absorb (Scope.checkDecl ⟨a, x.1.index, x.1.path⟩ x.2)

/-- Analyses a program, with one body after the other. -/
def Program.analyzeInTurn (p : Program) (options : BuildOptions) :
    Except AnalysisError Analysis := do
  let a ← (Analysis.initial options).readFiles p.entry.toNat 0 p.files
  let a ← p.decls.foldlM Analysis.checkNext a
  return a.requireOutput p

/-! ### What a body is shown -/

namespace Scope

/-- Whether two scopes show the same to a body. -/
structure Akin (s s' : Scope) : Prop where
  path : s'.path = s.path
  types : s'.analysis.types = s.analysis.types
  lookup : ∀ name, s'.analysis.lookupFunction s'.file name = s.analysis.lookupFunction s.file name
  function : ∀ k, s'.analysis.function? k = s.analysis.function? k
  resolved : ∀ n, s'.analysis.notes.resolvedType? n = s.analysis.notes.resolvedType? n

namespace Akin

variable {s s' : Scope} (h : s.Akin s')
include h

theorem report_eq : s'.report = s.report := by
  funext pos issue
  rw [report, report, h.path]

theorem unsupported_eq : s'.unsupported = s.unsupported := by
  funext pos construct
  rw [unsupported, unsupported, h.path]

theorem resolvedType_eq : s'.resolvedType = s.resolvedType := by
  funext t
  rw [resolvedType, resolvedType, h.resolved]

theorem signature_eq : s'.signature = s.signature := by
  funext k
  rw [signature, signature, h.function, h.resolvedType_eq]
  simp only [h.resolved]

theorem compare_eq : s'.compare = s.compare := by
  funext pos E t
  have hname : s'.typeName = s.typeName := by
    funext t
    rw [typeName, typeName, h.types]
  cases E with
  | none => rfl
  | some e => rw [compare, compare, hname, h.report_eq]

theorem conclude_eq : s'.conclude = s.conclude := by
  funext node E t
  rw [conclude, conclude, h.compare_eq]

theorem concludeReturn_eq : s'.concludeReturn = s.concludeReturn := by
  funext node ret t
  rw [concludeReturn, concludeReturn, h.compare_eq, h.report_eq]

omit h

mutual

/-- A body is checked by what it is shown alone. -/
theorem check_eq (h : s.Akin s') (ret : TypeId) : ∀ (e : Expr) (E : Option TypeId),
    s'.check ret E e = s.check ret E e
  | .number _ _, _ => by rw [check, check, h.conclude_eq]
  | .string _ _, _ => by rw [check, check, h.conclude_eq]
  | .unreachable _, _ => by rw [check, check, h.conclude_eq]
  | .void _, _ => by rw [check, check, h.conclude_eq]
  | .symbol _ _, _ => by rw [check, check, h.unsupported_eq]
  | .cast _ _ _, _ => by rw [check, check, h.unsupported_eq]
  | .binary _ op l r, _ => by
    simp only [check, check_eq h ret l, check_eq h ret r, h.unsupported_eq, h.conclude_eq]
  | .unary _ op e, _ => by
    simp only [check, check_eq h ret e, h.unsupported_eq, h.conclude_eq]
  | .block _ l, _ => by
    simp only [check, checkBlock_eq h ret l, h.conclude_eq]
  | .ret _ v, _ => by
    simp only [check, checkOptional_eq h ret v, h.concludeReturn_eq, h.conclude_eq]
  | .cond _ c th el, _ => by
    simp only [check, check_eq h ret c, check_eq h ret th, checkOptional_eq h ret el, h.compare_eq,
      h.conclude_eq]
  | .call _ callee args, _ => by
    cases callee <;>
      simp only [check, checkArgs_eq h ret args, h.lookup, h.signature_eq, h.report_eq,
        h.unsupported_eq, h.conclude_eq]

theorem checkOptional_eq (h : s.Akin s') (ret : TypeId) : ∀ (e : Option Expr) (E : Option TypeId),
    s'.checkOptional ret E e = s.checkOptional ret E e
  | none, _ => rfl
  | some e, _ => by simp only [checkOptional, check_eq h ret e]

theorem checkBlock_eq (h : s.Akin s') (ret : TypeId) : ∀ (l : List Expr) (last : TypeId),
    s'.checkBlock ret last l = s.checkBlock ret last l
  | [], _ => rfl
  | e :: rest, _ => by
    simp only [checkBlock, check_eq h ret e, checkBlock_eq h ret rest, h.report_eq]

theorem checkArgs_eq (h : s.Akin s') (ret : TypeId) : ∀ (l : List Expr)
    (params : List (Option TypeId)), s'.checkArgs ret params l = s.checkArgs ret params l
  | [], _ => rfl
  | e :: rest, _ => by simp only [checkArgs, check_eq h ret e, checkArgs_eq h ret rest]

end

/-- So is a declaration whose own note is the same. -/
theorem checkDecl_eq (h : s.Akin s') {d : Decl} (hskip : ∀ f, d = .fnDef f →
    s'.analysis.notes.isSkipped f.node.id = s.analysis.notes.isSkipped f.node.id) :
    s'.checkDecl d = s.checkDecl d := by
  cases d with
  | fnDef f =>
    simp only [checkDecl, checkDefinition, hskip f rfl, h.resolvedType_eq, h.check_eq]
  | use u => simp only [checkDecl, h.report_eq]
  | externalBlock b => rfl
  | rootExport e => rfl

end Akin

end Scope

/-! ### What a body writes -/

/-- Whether a note is of the kind that bodies write. -/
def NoteKind.OfBody : NoteKind → Prop
  | .typeRef => False
  | .expr => True
  | .fnDef skip => skip = false

/-- Whether `u` shows to bodies what `t` shows. -/
structure Notes.ReadsAs (u t : Notes) : Prop where
  resolved : ∀ n, u.resolvedType? n = t.resolvedType? n
  skipped : ∀ n, u.isSkipped n = t.isSkipped n

theorem Notes.ReadsAs.refl (t : Notes) : t.ReadsAs t := ⟨fun _ => rfl, fun _ => rfl⟩

theorem Notes.ReadsAs.trans {t u v : Notes} (h : v.ReadsAs u) (h' : u.ReadsAs t) : v.ReadsAs t :=
  ⟨fun n => (h.resolved n).trans (h'.resolved n), fun n => (h.skipped n).trans (h'.skipped n)⟩

/-- Notes of bodies are not read by bodies. -/
theorem Notes.RecordedAll.readsAs {t u : Notes} {l : List (NodeId × Note)} (h : t.RecordedAll l u)
    (hl : ∀ x ∈ l, x.2.kind.OfBody) : u.ReadsAs t := by
  constructor <;> intro n
  · rcases h.get?_eq_or n with hsame | ⟨ht, x, hu, hx⟩
    · rw [resolvedType?, resolvedType?, hsame]
    · have hkind := hl _ hx
      cases x with
      | typeRef i => cases hkind
      | _ => rw [resolvedType?, resolvedType?, ht, hu]
  · rcases h.get?_eq_or n with hsame | ⟨ht, x, hu, hx⟩
    · rw [isSkipped, isSkipped, hsame]
    · have hkind := hl _ hx
      cases x with
      | fnDef skip type =>
        obtain rfl : skip = false := hkind
        rw [isSkipped, isSkipped, ht, hu]
      | _ => rw [isSkipped, isSkipped, ht, hu]

/-- A declaration that is checked to its end writes notes of bodies only. -/
theorem Scope.ofBody_of_checkDecl {s : Scope} {d : Decl} {t u : Notes}
    (h : (s.checkDecl d).outcome = .ok ()) (hu : t.RecordedAll (s.checkDecl d).notes u) :
    ∀ x ∈ (s.checkDecl d).notes, x.2.kind.OfBody := by
  cases d with
  | externalBlock b => exact fun _ hx => nomatch hx
  | rootExport e => exact fun _ hx => nomatch hx
  | use d =>
    rw [notes_checkUse]
    exact fun _ hx => nomatch hx
  | fnDef d =>
    cases hskip : s.analysis.notes.isSkipped d.node.id with
    | true =>
      rw [checkDecl, notes_checkDefinition_of_skipped hskip]
      exact fun _ hx => nomatch hx
    | false =>
      intro x hx
      obtain ⟨hnoted, -⟩ := noted_of_checkDefinition hskip ⟨h, rfl⟩ (agrees_of_recordedAll hu)
      have hmem := List.mem_map_of_mem (f := fun x : NodeId × Note => (x.1, x.2.kind)) hx
      rw [checkDecl, hnoted, List.mem_append, List.mem_map, List.mem_singleton] at hmem
      rcases hmem with ⟨e, -, he⟩ | hself
      · rw [← (Prod.mk.inj he).2]
        trivial
      · rw [(Prod.mk.inj hself).2]
        rfl

/-! ### One body after the other -/

namespace Analysis

variable {a b c : Analysis}

theorem absorb_pure (a : Analysis) : a.absorb (.pure ()) = .ok a := by
  change Except.ok { a with findings := a.findings ++ [] } = _
  rw [List.append_nil]

/-- What two runs give one after the other is written down one after the other. -/
theorem absorb_bind (a : Analysis) (x : Checked Unit) (f : Unit → Checked Unit) :
    a.absorb (x >>= f) = a.absorb x >>= fun b => b.absorb (f ()) := by
  obtain ⟨notes, findings, outcome⟩ := x
  cases outcome with
  | error e =>
    change (a.notes.recordAll notes >>= fun _ => .error e) = _
    rw [absorb, bind_assoc]
    rfl
  | ok v =>
    change (a.notes.recordAll (notes ++ (f v).notes) >>= fun t => (f v).outcome >>= fun _ => _) = _
    rw [Notes.recordAll_append, absorb, bind_assoc, bind_assoc]
    refine bind_congr fun t => bind_congr fun u => bind_congr fun _ => ?_
    rw [List.append_assoc]
    rfl

/-- Whether `b` is `a` after some bodies. -/
structure After (b a : Analysis) : Prop where
  rest : b = { a with notes := b.notes, findings := b.findings }
  reads : b.notes.ReadsAs a.notes

theorem After.refl (a : Analysis) : a.After a := ⟨rfl, .refl _⟩

/-- A declaration is checked alike before and after other bodies. -/
theorem After.checkDecl_eq (h : b.After a) (file : Nat) (path : String) (d : Decl) :
    Scope.checkDecl ⟨b, file, path⟩ d = Scope.checkDecl ⟨a, file, path⟩ d := by
  have hakin : Scope.Akin ⟨a, file, path⟩ ⟨b, file, path⟩ := by
    rw [h.rest]
    exact ⟨rfl, rfl, fun _ => rfl, fun _ => rfl, h.reads.resolved⟩
  exact hakin.checkDecl_eq fun f _ => h.reads.skipped f.node.id

/-- One more body. -/
theorem After.absorb (h : b.After a) {file : Nat} {path : String} {d : Decl}
    (hc : b.absorb (Scope.checkDecl ⟨a, file, path⟩ d) = .ok c) : c.After a := by
  simp only [Analysis.absorb, bind_eq_ok_iff, pure_eq_ok_iff] at hc
  obtain ⟨notes, hnotes, _, hok, rfl⟩ := hc
  have hall := Notes.recordedAll hnotes
  refine ⟨?_, (hall.readsAs (Scope.ofBody_of_checkDecl hok hall)).trans h.reads⟩
  rw [h.rest]

/-- Bodies that are checked in turn give what they give when they are checked at once. -/
theorem After.foldlM_checkNext (h : b.After a) (l : List (FileContext × Decl)) :
    l.foldlM checkNext b =
      b.absorb (l.forM fun x => Scope.checkDecl ⟨a, x.1.index, x.1.path⟩ x.2) := by
  induction l generalizing b with
  | nil => exact (absorb_pure b).symm
  | cons x l ih =>
    change _ = b.absorb (_ >>= fun _ => l.forM _)
    rw [List.foldlM_cons, absorb_bind, checkNext, h.checkDecl_eq]
    cases hc : b.absorb (Scope.checkDecl ⟨a, x.1.index, x.1.path⟩ x.2) with
    | error e => rfl
    | ok c => exact ih (h.absorb hc)

end Analysis

/-- It makes no difference whether a body is checked against what the signatures have left or
against what the bodies before it have left as well. -/
theorem Program.analyzeInTurn_eq (p : Program) (options : BuildOptions) :
    p.analyzeInTurn options = p.analyze options := by
  rw [analyzeInTurn, analyze]
  refine bind_congr fun a => ?_
  rw [(Analysis.After.refl a).foldlM_checkNext, Analysis.checkFiles_eq p.entry.toNat]
  rfl

end Sema
