import Sema.Proofs.SignatureTrace

/-!
Where the diagnostics of an analysis come from. Those of the signatures come first, then those of the
bodies, each time file by file and declaration by declaration; what is found in a declaration is found
in its own file, at one of its own nodes, whatever other files it depends on. What the artifact lacks
comes last.
-/

namespace Sema

/-- Where something can be found when bodies are checked: at an expression of a body, or at a directive
of a use declaration. -/
def Decl.bodySites : Decl → List Node
  | .fnDef d => d.body.parts.map Expr.node
  | .use u => u.directives.map Directive.node
  | _ => []

theorem Expr.node_mem_ownNodes (e : Expr) : e.node ∈ e.ownNodes := by
  cases e <;> simp [ownNodes, node]

theorem Decl.bodySites_subset (d : Decl) : d.bodySites ⊆ d.nodes := by
  intro n hn
  cases d with
  | fnDef d =>
    obtain ⟨e, he, rfl⟩ := List.mem_map.mp hn
    simp only [nodes, List.mem_append]
    exact .inl (.inr (List.mem_flatMap.mpr ⟨e, he, e.node_mem_ownNodes⟩))
  | externalBlock b => cases hn
  | rootExport e => cases hn
  | use u => exact List.mem_append_left _ hn

/-! ### Checking finds at the nodes checked -/

namespace Checked

variable {α β : Type} {path : String} {sites : List Node}

/-- Whether all that is found is in a file, at some nodes. -/
def FindsAt (path : String) (sites : List Node) (x : Checked α) : Prop :=
  ∀ f ∈ x.findings, f.At path sites

theorem FindsAt.of_eq_nil {x : Checked α} (h : x.findings = []) : x.FindsAt path sites := by
  rw [FindsAt, h]
  exact fun _ hf => absurd hf List.not_mem_nil

theorem FindsAt.bind {x : Checked α} {f : α → Checked β} (hx : x.FindsAt path sites)
    (hf : ∀ v, (f v).FindsAt path sites) : (x >>= f).FindsAt path sites := by
  rw [FindsAt, bind_eq, Checked.bind]
  cases x.outcome with
  | ok v => exact List.forall_mem_append.mpr ⟨hx, hf v⟩
  | error e => exact hx

theorem findsAt_report {n : Node} (hn : n ∈ sites) (issue : Issue) :
    (report path n.pos issue).FindsAt path sites :=
  List.forall_mem_singleton.mpr (Finding.at_of_mem issue hn)

theorem findsAt_ofOption (e : AnalysisError) (o : Option α) :
    (ofOption e o).FindsAt path sites := by
  cases o <;> exact .of_eq_nil rfl

theorem findsAt_ofExcept {ε : Type} (f : ε → AnalysisError) (r : Except ε α) :
    (ofExcept f r).FindsAt path sites := by
  cases r <;> exact .of_eq_nil rfl

theorem FindsAt.forM {f : α → Checked Unit} : ∀ {l : List α},
    (∀ x ∈ l, (f x).FindsAt path sites) → (l.forM f).FindsAt path sites
  | [], _ => .of_eq_nil rfl
  | x :: l, h => by
    obtain ⟨hx, hl⟩ := List.forall_mem_cons.mp h
    exact FindsAt.bind hx fun _ => .forM hl

end Checked

namespace Scope

open Checked

variable {s : Scope} {sites : List Node} {n : Node}

theorem findsAt_compare (hn : n ∈ sites) (E : Option TypeId) (t : TypeId) :
    (s.compare n.pos E t).FindsAt s.path sites := by
  unfold compare
  split
  · exact .of_eq_nil rfl
  · split
    · exact .of_eq_nil rfl
    · exact (findsAt_ofOption _ _).bind fun _ => (findsAt_ofOption _ _).bind fun _ =>
        findsAt_report hn _

theorem findsAt_conclude (hn : n ∈ sites) (E : Option TypeId) (t : TypeId) :
    (s.conclude n E t).FindsAt s.path sites :=
  (findsAt_compare hn E t).bind fun _ => FindsAt.bind (.of_eq_nil rfl) fun _ => .of_eq_nil rfl

theorem findsAt_concludeReturn (hn : n ∈ sites) (ret t : TypeId) :
    (s.concludeReturn n ret t).FindsAt s.path sites := by
  unfold concludeReturn
  split
  · exact (findsAt_report hn _).bind fun _ => findsAt_compare hn _ _
  · exact findsAt_compare hn _ _

/-- The functions that are called stand elsewhere, but nothing is found there. -/
theorem findsAt_signature (k : FunctionId) : (s.signature k).FindsAt s.path sites :=
  (findsAt_ofOption _ _).bind fun _ => (findsAt_ofOption _ _).bind fun _ => .of_eq_nil rfl

mutual

theorem findsAt_check (ret : TypeId) : ∀ (e : Expr) (E : Option TypeId),
    (∀ x ∈ e.parts, x.node ∈ sites) → (s.check ret E e).FindsAt s.path sites
  | .number n _, E, h => findsAt_conclude (h _ (List.mem_singleton_self _)) E _
  | .string n _, E, h => findsAt_conclude (h _ (List.mem_singleton_self _)) E _
  | .unreachable n, E, h => findsAt_conclude (h _ (List.mem_singleton_self _)) E _
  | .void n, E, h => findsAt_conclude (h _ (List.mem_singleton_self _)) E _
  | .symbol _ _, _, _ => .of_eq_nil rfl
  | .cast _ _ _, _, _ => .of_eq_nil rfl
  | .binary n op l r, E, h => by
    simp only [Expr.parts, List.forall_mem_append, List.forall_mem_singleton] at h
    obtain ⟨⟨hl, hr⟩, hn⟩ := h
    rw [check]
    exact (findsAt_ofExcept _ _).bind fun _ => (findsAt_check ret l _ hl).bind fun _ =>
      (findsAt_check ret r _ hr).bind fun _ => findsAt_conclude hn E _
  | .unary n op e, E, h => by
    simp only [Expr.parts, List.forall_mem_append, List.forall_mem_singleton] at h
    obtain ⟨he, hn⟩ := h
    rw [check]
    exact (findsAt_ofExcept _ _).bind fun _ => (findsAt_check ret e _ he).bind fun _ =>
      findsAt_conclude hn E _
  | .block n l, E, h => by
    simp only [Expr.parts, List.forall_mem_append, List.forall_mem_singleton] at h
    obtain ⟨hl, hn⟩ := h
    rw [check]
    exact (findsAt_checkBlock ret l _ hl).bind fun _ => findsAt_conclude hn E _
  | .ret n v, E, h => by
    simp only [Expr.parts, List.forall_mem_append, List.forall_mem_singleton] at h
    obtain ⟨hv, hn⟩ := h
    rw [check]
    exact (findsAt_checkOptional ret v _ hv).bind fun _ =>
      (findsAt_concludeReturn hn _ _).bind fun _ => findsAt_conclude hn E _
  | .cond n c th el, E, h => by
    simp only [Expr.parts, List.forall_mem_append, List.forall_mem_singleton] at h
    obtain ⟨⟨⟨hc, hel⟩, hth⟩, hn⟩ := h
    rw [check]
    exact (findsAt_check ret c _ hc).bind fun _ => (findsAt_checkOptional ret el _ hel).bind fun _ =>
      (findsAt_check ret th _ hth).bind fun _ => (findsAt_compare hn _ _).bind fun _ =>
        findsAt_conclude hn E _
  | .call n callee args, E, h => by
    simp only [Expr.parts, List.forall_mem_append, List.forall_mem_singleton] at h
    obtain ⟨⟨-, hargs⟩, hn⟩ := h
    have hrest : ∀ params t,
        (s.checkArgs ret params args >>= fun _ => s.conclude n E t).FindsAt s.path sites :=
      fun params t => (findsAt_checkArgs ret args params hargs).bind fun _ => findsAt_conclude hn E t
    cases callee with
    | symbol m name =>
      rw [check]
      cases s.analysis.lookupFunction s.file name with
      | none => exact (findsAt_report hn _).bind fun _ => hrest _ _
      | some k =>
        refine (findsAt_signature k).bind fun sig => ?_
        dsimp only
        split
        · exact (findsAt_report hn _).bind fun _ => hrest _ _
        · exact hrest _ _
    | _ => exact .of_eq_nil rfl

theorem findsAt_checkOptional (ret : TypeId) : ∀ (e : Option Expr) (E : Option TypeId),
    (∀ x ∈ Expr.partsOptional e, x.node ∈ sites) → (s.checkOptional ret E e).FindsAt s.path sites
  | none, _, _ => .of_eq_nil rfl
  | some e, E, h => (findsAt_check ret e E h).bind fun _ => .of_eq_nil rfl

theorem findsAt_checkBlock (ret : TypeId) : ∀ (l : List Expr) (last : TypeId),
    (∀ x ∈ Expr.partsAll l, x.node ∈ sites) → (s.checkBlock ret last l).FindsAt s.path sites
  | [], _, _ => .of_eq_nil rfl
  | e :: rest, last, h => by
    simp only [Expr.partsAll, List.forall_mem_append] at h
    obtain ⟨he, hrest⟩ := h
    rw [checkBlock]
    split
    · dsimp only
      split
      · exact (findsAt_report (he e e.mem_parts_self) _).bind fun _ =>
          findsAt_checkBlock ret rest last hrest
      · exact findsAt_checkBlock ret rest last hrest
    · exact (findsAt_check ret e _ he).bind fun t => findsAt_checkBlock ret rest t hrest

theorem findsAt_checkArgs (ret : TypeId) : ∀ (l : List Expr) (params : List (Option TypeId)),
    (∀ x ∈ Expr.partsAll l, x.node ∈ sites) → (s.checkArgs ret params l).FindsAt s.path sites
  | [], _, _ => .of_eq_nil rfl
  | e :: rest, params, h => by
    simp only [Expr.partsAll, List.forall_mem_append] at h
    obtain ⟨he, hrest⟩ := h
    rw [checkArgs]
    exact (findsAt_check ret e _ he).bind fun _ => findsAt_checkArgs ret rest _ hrest

end

theorem findsAt_checkDecl (s : Scope) (d : Decl) : (s.checkDecl d).FindsAt s.path d.bodySites := by
  cases d with
  | fnDef d =>
    rw [checkDecl, checkDefinition]
    split
    · exact .of_eq_nil rfl
    · exact (findsAt_ofOption _ _).bind fun _ =>
        (findsAt_check _ _ _ fun x hx => List.mem_map_of_mem hx).bind fun _ => .of_eq_nil rfl
  | externalBlock b => exact .of_eq_nil rfl
  | rootExport e => exact .of_eq_nil rfl
  | use u => exact .forM fun d hd => findsAt_report (List.mem_map_of_mem hd) _

end Scope

/-! ### Whole programs -/

namespace Program

variable {p : Program} {options : BuildOptions}

/-- What is found in the bodies of a file, declaration by declaration. -/
def bodyTrace (p : Program) (options : BuildOptions) (i : Nat) : List (List Finding) :=
  match p.signaturesTo options p.files.length, p.files[i]? with
  | .ok s, some f => f.decls.map fun d => (Scope.checkDecl ⟨s, i, f.path⟩ d).findings
  | _, _ => []

theorem bodyTrace_eq {s : Analysis}
    (hs : (Analysis.initial options).readFiles p.entry.toNat 0 p.files = .ok s) {i : Nat}
    {f : SourceFile} (hf : p.files[i]? = some f) : p.bodyTrace options i =
      f.decls.map fun d => (Scope.checkDecl ⟨s, i, f.path⟩ d).findings := by
  rw [bodyTrace, signaturesTo_length, hs, hf]

theorem flatten_bodyTrace {s : Analysis}
    (hs : (Analysis.initial options).readFiles p.entry.toNat 0 p.files = .ok s) (i : Nat) :
    (p.bodyTrace options i).flatten =
      (p.readingsIn i).flatMap fun r => ((Scope.ofReading s r).checkDecl r.decl).findings := by
  cases hf : p.files[i]? with
  | none =>
    rw [bodyTrace, signaturesTo_length, hs, hf, readingsIn, getElem?_marked, hf]
    rfl
  | some f =>
    have hdecls := map_readingsIn (getElem?_marked_of_files hf)
    have hmap := congrArg (List.map fun x : FileContext × Decl =>
      (Scope.checkDecl ⟨s, x.1.index, x.1.path⟩ x.2).findings) hdecls
    rw [List.map_map, List.map_map] at hmap
    rw [bodyTrace_eq hs hf, List.flatMap_def]
    exact congrArg List.flatten hmap.symm

/-- What is found in the bodies is what is found in those of each file, in order. -/
theorem findings_checkFiles {s : Analysis}
    (hs : (Analysis.initial options).readFiles p.entry.toNat 0 p.files = .ok s)
    (hok : (s.checkFiles 0 p.files).outcome = .ok ()) : (s.checkFiles 0 p.files).findings =
      (List.range p.files.length).flatMap fun i => (p.bodyTrace options i).flatten := by
  rw [checkFiles_eq] at hok ⊢
  rw [Checked.forM_of_ok (Checked.outcome_forM_iff.mp hok)]
  change p.readings.flatMap _ = _
  rw [readings_eq, List.flatMap_assoc]
  exact List.flatMap_congr fun i _ => (flatten_bodyTrace hs i).symm

theorem signatureTrace_located {s : Analysis}
    (hs : (Analysis.initial options).readFiles p.entry.toNat 0 p.files = .ok s) {i : Nat}
    {f : SourceFile} (hf : p.files[i]? = some f) :
    f.decls.Forall₂ (fun d found => ∀ x ∈ found, x.At f.path d.signatureSites)
      (p.signatureTrace options i) := by
  have hmap := congrArg (List.map Prod.snd) (map_readingsIn (getElem?_marked_of_files hf))
  rw [List.map_map, List.map_map] at hmap
  have hdecls : (p.readingsIn i).map Reading.decl = f.decls := hmap.trans (List.map_id _)
  rw [← hdecls, List.forall₂_map_left_iff]
  refine (forall₂_with_mem (yields_signatureTrace hs i)).imp fun r found hr => ?_
  obtain ⟨x, hx, hc, -⟩ := mem_readingsIn hr.1
  obtain rfl := Option.some.inj ((getElem?_files hx).symm.trans hf)
  have hlocated := hr.2.2.located
  rwa [hc] at hlocated

/-- The diagnostics of an analysis are those of the signatures of each file, then those of the bodies
of each file, and at last what the artifact lacks. Each is about the declaration it is found in. -/
theorem diagnostics_in_order {b : Analysis} (h : p.analyze options = .ok b) :
    b.diagnostics.toList =
      ((List.range p.files.length).flatMap (fun i => (p.signatureTrace options i).flatten) ++
        (List.range p.files.length).flatMap (fun i => (p.bodyTrace options i).flatten) ++
          Analysis.outputFindings p b.output).map Finding.diagnostic ∧
    ∀ (i : Nat) (f : SourceFile), p.files[i]? = some f →
      f.decls.Forall₂ (fun d found => ∀ x ∈ found, x.At f.path d.signatureSites)
        (p.signatureTrace options i) ∧
      f.decls.Forall₂ (fun d found => ∀ x ∈ found, x.At f.path d.bodySites)
        (p.bodyTrace options i) ∧
      ∀ d ∈ f.decls, d.signatureSites ⊆ f.nodes ∧ d.bodySites ⊆ f.nodes := by
  obtain ⟨s, notes, hs, -, hok, rfl⟩ := analyze_eq_ok_iff.mp h
  constructor
  · have hsig := findings_signaturesTo (a := s) p.files.length
      ((p.signaturesTo_length options).trans hs)
    rw [← findings_checkFiles hs hok, ← hsig]
    rfl
  · intro i f hf
    refine ⟨signatureTrace_located hs hf, ?_, fun d hd => ?_⟩
    · rw [bodyTrace_eq hs hf, List.forall₂_map_right_iff, List.forall₂_same]
      exact fun d _ => Scope.findsAt_checkDecl _ d
    · have hnodes : d.nodes ⊆ f.nodes := fun n hn =>
        List.mem_append_left _ (List.mem_flatMap.mpr ⟨d, hd, hn⟩)
      exact ⟨List.Subset.trans d.signatureSites_subset hnodes,
        List.Subset.trans d.bodySites_subset hnodes⟩

/-- A program with mistakes in both of its files. The body of `main` calls a function of the other file
with too few arguments, and the artifact has no kind. -/
def scattered : Program where
  files := [
    ⟨"main.kiln", .onLine 1, [
      .use ⟨.onLine 2, "two.kiln", [⟨.onLine 3, "once", ""⟩]⟩,
      .rootExport ⟨.onLine 4, "tarball", "app", []⟩,
      .fnDef ⟨.onLine 5, ⟨.onLine 6, "main", .exported, [], .named (.onLine 7) "i32", []⟩,
        .call (.onLine 8) (.symbol (.onLine 9) "two") []⟩]⟩,
    ⟨"two.kiln", .onLine 10, [
      .fnDef ⟨.onLine 11, ⟨.onLine 12, "two", .shared,
        [⟨.onLine 13, "n", .named (.onLine 14) "int"⟩], .named (.onLine 15) "i32", []⟩,
        .string (.onLine 16) "2"⟩]⟩]
  entry := 0

theorem scattered_in_order : ∃ b, scattered.analyze .none = .ok b ∧
    (b.diagnostics.toList.map fun d => (d.file, d.start.line)) =
      [("main.kiln", 4), ("two.kiln", 14), ("main.kiln", 3), ("main.kiln", 8), ("two.kiln", 16),
        ("main.kiln", 1)] ∧
    b.diagnostics.toList =
      (([0, 1].flatMap fun i => (scattered.signatureTrace .none i).flatten) ++
        ([0, 1].flatMap fun i => (scattered.bodyTrace .none i).flatten) ++
          Analysis.outputFindings scattered b.output).map Finding.diagnostic := by
  have hlines : (scattered.analyze .none).map (fun b =>
      b.diagnostics.toList.map fun d => (d.file, d.start.line)) = .ok [("main.kiln", 4),
        ("two.kiln", 14), ("main.kiln", 3), ("main.kiln", 8), ("two.kiln", 16),
        ("main.kiln", 1)] := by decide +kernel
  obtain ⟨b, hb, hlines⟩ := map_eq_ok_iff.mp hlines
  exact ⟨b, hb, hlines, (diagnostics_in_order hb).1⟩

end Program

end Sema
