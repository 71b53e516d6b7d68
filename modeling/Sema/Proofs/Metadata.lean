import Sema.Proofs.Erroneous
import Sema.Proofs.FileOrder
import Sema.Proofs.SignatureTrace

/-!
What an analysis tells of the artifact. The first root export of the entry file settles what the
build options leave open; any other root export changes nothing and is reported once. The libraries
to link with are those that the external blocks of all files ask for.
-/

namespace Sema

/-- A declaration as a root export, if it is one. -/
def Decl.exports : Decl → List RootExport
  | .rootExport e => [e]
  | _ => []

/-- The root exports of a file, in order. -/
def SourceFile.exports (f : SourceFile) : List RootExport := f.decls.flatMap Decl.exports

/-- The root exports of the entry file, which are none if the program lacks this file. -/
def Program.entryExports (p : Program) : List RootExport :=
  p.entryFile?.toList.flatMap SourceFile.exports

/-- Whether a finding is that a root export stands where it does not count. -/
def Finding.isMisplaced (f : Finding) : Bool :=
  f.issue = .repeatedExport ∨ f.issue = .exportOutsideEntry

/-- What is found of the root export at a place of a file: what is wrong with its directives, and
then with its kind, unless it comes after another and is not looked at any further. -/
def SourceFile.exportFindings (f : SourceFile) (isEntry : Bool) (k : Nat) (e : RootExport) :
    List Finding :=
  if isEntry then
    e.directives.flatMap (Directive.versionFindings f.path) ++
      if (f.decls.take k).flatMap Decl.exports = [] then e.kindFindings f.path
      else [⟨f.path, e.node.pos, .repeatedExport⟩]
  else [⟨f.path, e.node.pos, .exportOutsideEntry⟩]

theorem Finding.ofType_eq_false_of_isMisplaced {f : Finding} (h : f.isMisplaced) :
    f.ofType = false := by
  rcases of_decide_eq_true h with hi | hi
  · rw [ofType, hi]
  · rw [ofType, hi]

/-- The root exports of a file that do not count, each reported once: all but the first in the entry
file, and all in another. -/
def SourceFile.misplaced (f : SourceFile) (isEntry : Bool) : List Finding :=
  if isEntry then f.exports.tail.map fun e => ⟨f.path, e.node.pos, .repeatedExport⟩
  else f.exports.map fun e => ⟨f.path, e.node.pos, .exportOutsideEntry⟩

/-! ### Readings of root exports -/

namespace Reading

variable {r : Reading}

/-- What is found of a root export for its place alone. -/
def misplaced (r : Reading) : List Finding :=
  match r.decl with
  | .rootExport e =>
      if r.context.isEntry then
        if r.honored then [⟨r.context.path, e.node.pos, .repeatedExport⟩] else []
      else [⟨r.context.path, e.node.pos, .exportOutsideEntry⟩]
  | _ => []

theorem filter_isMisplaced_findings (r : Reading) :
    r.findings.filter Finding.isMisplaced = r.misplaced := by
  have hproto := filter_prototype_findings (q := Finding.isMisplaced)
    (fun _ => Finding.ofType_eq_false_of_isMisplaced) (fun _ _ _ => rfl) r.context.path
  cases hd : r.decl with
  | fnDef d =>
    rw [findings_fnDef hd, misplaced, hd]
    split
    · rfl
    · exact hproto _
  | externalBlock b =>
    rw [findings_externalBlock hd, misplaced, hd, List.filter_append, List.filter_flatMap,
      List.append_eq_nil_iff, List.flatMap_eq_nil_iff, List.filter_eq_nil_iff]
    refine ⟨fun f hf => ?_, fun f _ => hproto _⟩
    obtain ⟨d, -, rfl⟩ := List.mem_map.mp hf
    exact Bool.false_ne_true
  | rootExport e =>
    rw [findings_rootExport hd, misplaced, hd]
    dsimp only
    split
    · have hown : (e.directives.flatMap (Directive.versionFindings r.context.path)).filter
          Finding.isMisplaced = [] := by
        rw [List.filter_flatMap, List.flatMap_eq_nil_iff]
        intro d _
        unfold Directive.versionFindings
        repeat' split
        all_goals rfl
      rw [List.filter_append, hown, List.nil_append]
      split
      · rfl
      · unfold RootExport.kindFindings
        split
        all_goals rfl
    · rfl
  | use u =>
    rw [findings, misplaced, hd]
    rfl

/-- A root export has no signature, so the names in it are plain. -/
theorem isPlain_of_rootExport {e : RootExport} (h : r.decl = .rootExport e) : r.IsPlain := by
  intro f hf
  rw [functions, h] at hf
  cases hf

/-- In the entry file a root export is honored once one is met. -/
theorem honored_or_honors {known : List Function} {honored : Bool} {c : FileContext}
    (hc : c.isEntry) (d : Decl) : (honored || (Reading.honors ⟨known, honored, c, d⟩).isSome) =
      (honored || !d.exports.isEmpty) := by
  unfold honors Decl.exports
  cases d <;> cases honored <;> simp [hc]

end Reading

variable {c : FileContext}

section

variable (hc : c.isEntry)
include hc

/-- The first root export is honored, if none was before. -/
theorem honors_readingsFrom (ds : List Decl) (known : List Function) (honored : Bool) :
    (readingsFrom known honored (ds.map (c, ·))).flatMap (·.honors.toList) =
      if honored then [] else (ds.flatMap Decl.exports).head?.toList := by
  induction ds generalizing known honored with
  | nil => cases honored <;> rfl
  | cons d ds ih =>
    rw [List.map_cons, readingsFrom, List.flatMap_cons, ih, Reading.honored_or_honors hc]
    unfold Reading.honors
    cases d <;> cases honored <;> simp [hc, Decl.exports]

/-- A declaration is met after a root export is honored, or after one of the declarations before it
that is a root export. -/
theorem honored_readingsFrom {k : Nat} {r : Reading} (ds : List Decl) (known : List Function)
    (honored : Bool) (h : (readingsFrom known honored (ds.map (c, ·)))[k]? = some r) :
    r.honored = (honored || !((ds.take k).flatMap Decl.exports).isEmpty) := by
  induction ds generalizing known honored k with
  | nil => cases h
  | cons d ds ih =>
    rw [List.map_cons, readingsFrom] at h
    cases k with
    | zero =>
      obtain rfl := Option.some.inj h
      simp
    | succ k =>
      rw [ih _ _ h, Reading.honored_or_honors hc, List.take_succ_cons, List.flatMap_cons]
      cases d.exports <;> simp

/-- All root exports but the first are misplaced. -/
theorem misplaced_readingsFrom (ds : List Decl) (known : List Function) (honored : Bool) :
    (readingsFrom known honored (ds.map (c, ·))).flatMap Reading.misplaced =
      (if honored then ds.flatMap Decl.exports else (ds.flatMap Decl.exports).tail).map
        fun e => ⟨c.path, e.node.pos, .repeatedExport⟩ := by
  induction ds generalizing known honored with
  | nil => cases honored <;> rfl
  | cons d ds ih =>
    rw [List.map_cons, readingsFrom, List.flatMap_cons, ih, Reading.honored_or_honors hc]
    unfold Reading.misplaced
    cases d <;> cases honored <;> simp [hc, Decl.exports]

end

/-- In another file all root exports are misplaced. -/
theorem misplaced_readingsFrom_of_not_entry (hc : c.isEntry = false) (ds : List Decl)
    (known : List Function) (honored : Bool) :
    (readingsFrom known honored (ds.map (c, ·))).flatMap Reading.misplaced =
      (ds.flatMap Decl.exports).map fun e => ⟨c.path, e.node.pos, .exportOutsideEntry⟩ := by
  induction ds generalizing known honored with
  | nil => rfl
  | cons d ds ih =>
    rw [List.map_cons, readingsFrom, List.flatMap_cons, ih]
    unfold Reading.misplaced
    cases d <;> simp [hc, Decl.exports]

/-! ### Programs -/

/-- What is collected from the places of a list is collected from its items. -/
theorem flatMap_range_of_getElem? {α β : Type} {F : Nat → List β} {G : α → List β} {l : List α}
    (h : ∀ i x, l[i]? = some x → F i = G x) : (List.range l.length).flatMap F = l.flatMap G := by
  induction l using List.reverseRecOn with
  | nil => rfl
  | append_singleton l x ih =>
    have hlast := h l.length x (by simp)
    have hinit := ih fun i y hy => h i y (by
      rw [List.getElem?_append_left (List.getElem?_eq_some_iff.mp hy).1, hy])
    rw [List.length_append, List.length_singleton, List.range_succ, List.flatMap_append,
      List.flatMap_append, hinit, List.flatMap_singleton, List.flatMap_singleton, hlast]

theorem exists_getElem?_of_forall₂ {α β : Type} {R : α → β → Prop} : ∀ {l : List α} {m : List β},
    l.Forall₂ R m → ∀ {k : Nat} {x : α}, l[k]? = some x → ∃ y, m[k]? = some y ∧ R x y
  | _, _, .nil, _, _, hx => nomatch hx
  | _, _, .cons h _, 0, _, hx => ⟨_, rfl, Option.some.inj hx ▸ h⟩
  | _, _, .cons _ h, _ + 1, _, hx => exists_getElem?_of_forall₂ h hx

namespace Program

variable {p : Program} {options : BuildOptions} {a b : Analysis}

/-- The only root export that is honored is the first of the entry file. -/
theorem flatMap_honors (p : Program) :
    p.readings.flatMap (·.honors.toList) = p.entryExports.head?.toList := by
  rw [readings_eq, List.flatMap_assoc, flatMap_range_eq fun i hi => honors_eq_nil hi, entryExports]
  cases hf : p.entryFile? with
  | none =>
    have hle : ¬ p.entry.toNat < p.files.length := Nat.not_lt.mpr (List.getElem?_eq_none_iff.mp hf)
    rw [if_neg hle]
    rfl
  | some f =>
    rw [if_pos (List.getElem?_eq_some_iff.mp hf).1, readingsIn_eq (getElem?_marked_of_files hf),
      honors_readingsFrom (beq_self_eq_true _), not_honored_before, if_neg Bool.false_ne_true,
      Option.toList_some, List.flatMap_singleton]
    rfl

/-- The first root export of the entry file settles what the options leave open. -/
theorem output_eq (h : (Analysis.initial options).Runs p.readings a) : a.output = {
    kind := options.outKind.or (p.entryExports.head?.bind fun e => OutputKind.ofWord? e.kind)
    name := options.outName.or (p.entryExports.head?.map (·.name))
    version := p.entryExports.head?.bind fun e => lastVersion? e.directives
    decl := p.entryExports.head?.map (·.node.id) } := by
  rw [h.output, outputAfter_eq, flatMap_honors]
  cases p.entryExports.head? <;> simp [Analysis.initial, Output.honor]

/-- The root exports that are misplaced are told file by file. -/
theorem flatMap_misplaced (p : Program) :
    p.readings.flatMap Reading.misplaced = p.marked.flatMap fun x => x.1.misplaced x.2 := by
  rw [readings_eq, List.flatMap_assoc, ← length_marked]
  refine flatMap_range_of_getElem? fun i x hx => ?_
  rw [readingsIn_eq hx, SourceFile.misplaced]
  cases hentry : x.2 with
  | true =>
    obtain rfl := (isEntry_iff hx).mp hentry
    rw [misplaced_readingsFrom rfl, not_honored_before]
    rfl
  | false => exact misplaced_readingsFrom_of_not_entry rfl _ _ _

/-- What is found of a root export when it is read. -/
theorem signatureTrace_rootExport
    (ha : (Analysis.initial options).readFiles p.entry.toNat 0 p.files = .ok a) {i k : Nat}
    {f : SourceFile} {e : RootExport} (hf : p.files[i]? = some f)
    (hk : f.decls[k]? = some (.rootExport e)) :
    (p.signatureTrace options i)[k]? = some (f.exportFindings (i == p.entry.toNat) k e) := by
  have hx := getElem?_marked_of_files hf
  have hmap := congrArg (·[k]?) (map_readingsIn hx)
  simp only [List.getElem?_map, hk, Option.map_some, Option.map_eq_some_iff, Prod.mk.injEq] at hmap
  obtain ⟨r, hr, hc, hd⟩ := hmap
  obtain ⟨found, hfound, hyields⟩ := exists_getElem?_of_forall₂ (yields_signatureTrace ha i) hr
  rw [hfound, hyields.plain (Reading.isPlain_of_rootExport hd), Reading.findings_rootExport hd, hc,
    SourceFile.exportFindings]
  cases hentry : i == p.entry.toNat with
  | false => rfl
  | true =>
    obtain rfl := beq_iff_eq.mp hentry
    rw [readingsIn_eq hx] at hr
    have hhonored := honored_readingsFrom hentry _ _ _ hr
    rw [not_honored_before, Bool.false_or] at hhonored
    rw [hhonored]
    cases (f.decls.take k).flatMap Decl.exports <;> simp

/-- The libraries to link with are the parameters of the `link` directives of external blocks. -/
theorem mem_libraries_iff (h : (Analysis.initial options).Runs p.readings a) {l : String} :
    l ∈ a.libraries ↔ ∃ f ∈ p.files, ∃ x, .externalBlock x ∈ f.decls ∧
      ∃ d ∈ x.directives, d.name = "link" ∧ d.param = l := by
  have hlinks : p.readings.flatMap (·.decl.links) =
      p.files.flatMap fun f => f.decls.flatMap Decl.links :=
    (flatMap_decls fun x => x.2.links).symm.trans (flatMap_snd_decls p Decl.links)
  have hnil : (Analysis.initial options).libraries = [] := rfl
  rw [h.libraries, hlinks, hnil, Text.mem_insertAll, or_iff_left List.not_mem_nil]
  simp only [List.mem_flatMap]
  refine exists_congr fun f => and_congr_right fun _ => ?_
  constructor
  · rintro ⟨x, hx, hl⟩
    cases x with
    | externalBlock x =>
      obtain ⟨d, hd, rfl⟩ := List.mem_map.mp hl
      obtain ⟨hd, hname⟩ := List.mem_filter.mp hd
      exact ⟨x, hx, d, hd, of_decide_eq_true hname, rfl⟩
    | _ => cases hl
  · rintro ⟨x, hx, d, hd, hname, rfl⟩
    exact ⟨_, hx, List.mem_map_of_mem (List.mem_filter.mpr ⟨hd, decide_eq_true hname⟩)⟩

/-- Each root export that does not count is reported once, and nothing else is reported so. -/
theorem filter_isMisplaced_result
    (ha : (Analysis.initial options).readFiles p.entry.toNat 0 p.files = .ok a) :
    (a.findings ++ (a.checkFiles 0 p.files).findings ++
        Analysis.outputFindings p a.output).filter Finding.isMisplaced =
      p.marked.flatMap fun x => x.1.misplaced x.2 := by
  have hrest := filter_rest_eq_nil (q := Finding.isMisplaced) ha fun f hf => by
    rcases of_decide_eq_true hf with hi | hi
    · simp [hi, Issue.ofBody]
    · simp [hi, Issue.ofBody]
  have hnil : (Analysis.initial options).findings = [] := rfl
  rw [List.append_assoc, List.filter_append, hrest, List.append_nil,
    (signatures_ok ha).2.findings.filter_eq fun _ => Finding.ofType_eq_false_of_isMisplaced, hnil,
    List.filter_nil, List.nil_append, List.filter_flatMap, ← flatMap_misplaced]
  exact List.flatMap_congr fun r _ => r.filter_isMisplaced_findings

/-- What an analysis tells of the artifact. -/
structure Metadata (p : Program) (options : BuildOptions) (b : Analysis) : Prop where
  decl : b.output.decl = p.entryExports.head?.map (·.node.id)
  name : b.output.name = options.outName.or (p.entryExports.head?.map (·.name))
  /-- The kind is left open where that of the first root export is not known. -/
  kind : b.output.kind =
    options.outKind.or (p.entryExports.head?.bind fun e => OutputKind.ofWord? e.kind)
  version : b.output.version = p.entryExports.head?.bind fun e => lastVersion? e.directives
  /-- A root export that does not count is reported once for that. -/
  misplaced : b.findings.filter Finding.isMisplaced = p.marked.flatMap fun x => x.1.misplaced x.2
  /-- The report comes after what is found in the directives. -/
  found : ∀ i f, p.files[i]? = some f → ∀ k e, f.decls[k]? = some (.rootExport e) →
    (p.signatureTrace options i)[k]? = some (f.exportFindings (i == p.entry.toNat) k e)
  /-- What is found while signatures are read comes first, file by file. -/
  traced : ((List.range p.files.length).flatMap fun i => (p.signatureTrace options i).flatten) <+:
    b.findings
  libraries : ∀ l, l ∈ b.libraries ↔ ∃ f ∈ p.files, ∃ x, .externalBlock x ∈ f.decls ∧
    ∃ d ∈ x.directives, d.name = "link" ∧ d.param = l
  sorted : b.libraries.Pairwise (· < ·)

/-- The artifact is told by the options and the first root export of the entry file alone. -/
theorem metadata_of_analyze (h : p.analyze options = .ok b) : p.Metadata options b := by
  obtain ⟨a, notes, ha, -, -, rfl⟩ := analyze_eq_ok_iff.mp h
  have hruns := (signatures_ok ha).2
  have houtput := output_eq hruns
  refine ⟨congrArg Output.decl houtput, congrArg Output.name houtput, congrArg Output.kind houtput,
    congrArg Output.version houtput, filter_isMisplaced_result ha,
    fun _ _ hf _ _ hk => signatureTrace_rootExport ha hf hk, ?_, fun _ => mem_libraries_iff hruns, ?_⟩
  · have hsig := findings_signaturesTo p.files.length ((p.signaturesTo_length options).trans ha)
    dsimp only
    rw [← hsig, List.append_assoc]
    exact List.prefix_append _ _
  · dsimp only
    rw [hruns.libraries]
    exact Text.sorted_insertAll _ .nil

/-- A program whose entry is its second file. The first root export there has an unknown kind,
another follows it, and there is one in the first file. -/
def labelled : Program where
  files := [
    ⟨"lib.kiln", .onLine 1, [
      .rootExport ⟨.onLine 2, "object", "lib", [⟨.onLine 3, "version", "9"⟩]⟩,
      .externalBlock ⟨.onLine 4, [⟨.onLine 5, "link", "m"⟩, ⟨.onLine 6, "link", "c"⟩], []⟩]⟩,
    ⟨"main.kiln", .onLine 7, [
      .rootExport ⟨.onLine 8, "tarball", "app", [⟨.onLine 9, "version", "1.2.3"⟩,
        ⟨.onLine 10, "version", "2.0.0"⟩, ⟨.onLine 11, "version", "two"⟩]⟩,
      .externalBlock ⟨.onLine 12, [⟨.onLine 13, "link", "c"⟩], []⟩,
      .rootExport ⟨.onLine 14, "library", "again", [⟨.onLine 15, "version", "3.0.0"⟩,
        ⟨.onLine 16, "once", ""⟩]⟩]⟩]
  entry := 1

theorem labelled_metadata : ∃ b, labelled.analyze ⟨some "tool", none⟩ = .ok b ∧
    b.output = ⟨none, some "tool", some ⟨2, 0, 0⟩, some ⟨8⟩⟩ ∧ b.libraries = ["c", "m"] ∧
    (b.findings.map fun f => (f.pos.line, f.issue)) = [(2, .exportOutsideEntry),
      (11, .invalidVersion), (8, .unknownOutputKind "tarball"), (16, .invalidDirective "once"),
      (14, .repeatedExport), (7, .missingOutputKind)] ∧
    labelled.Metadata ⟨some "tool", none⟩ b := by
  have htold : (labelled.analyze ⟨some "tool", none⟩).map (fun b =>
      (b.output, b.libraries, b.findings.map fun f => (f.pos.line, f.issue))) =
      .ok (⟨none, some "tool", some ⟨2, 0, 0⟩, some ⟨8⟩⟩, ["c", "m"], [(2, .exportOutsideEntry),
        (11, .invalidVersion), (8, .unknownOutputKind "tarball"), (16, .invalidDirective "once"),
        (14, .repeatedExport), (7, .missingOutputKind)]) := by decide +kernel
  obtain ⟨b, hb, htold⟩ := map_eq_ok_iff.mp htold
  obtain ⟨houtput, hrest⟩ := Prod.mk.inj htold
  obtain ⟨hlibraries, hfound⟩ := Prod.mk.inj hrest
  exact ⟨b, hb, houtput, hlibraries, hfound, metadata_of_analyze hb⟩

end Program

end Sema
