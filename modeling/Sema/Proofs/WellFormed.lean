import Sema.Proofs.Reading
import Sema.Proofs.Typing

/-!
What it means for a program to be well formed, told without an analysis: names are not repeated, types
and directives are proper, there is at most one root export, and the bodies follow the typing rules.
The signatures of a well-formed program are read without a finding, and of no other.
-/

namespace Sema

/-- Whether a declaration has no directives but those that mean something there. -/
def Decl.DirectivesAllowed : Decl → Prop
  | .fnDef _ => True
  | .externalBlock b => ∀ d ∈ b.directives, d.name = "link"
  | .rootExport e => ∀ d ∈ e.directives, d.name = "version" ∧ (Version.parse? d.param).isSome
  | .use u => u.directives = []

/-- The functions that declarations introduce, repetitions included. -/
def declared (l : List (FileContext × Decl)) : List Function :=
  l.flatMap fun x => x.2.functions x.1.index

/-- The root exports among declarations. -/
def rootExports (l : List (FileContext × Decl)) : List (FileContext × RootExport) :=
  l.flatMap fun x => match x.2 with
    | .rootExport e => [(x.1, e)]
    | _ => []

namespace Program

/-- The signatures that a file sees, by name. -/
def env (p : Program) (file : Nat) : Env Ty := fun name =>
  (Function.visible file name (declared p.decls)).map fun f =>
    ⟨f.proto.params.map (·.type.ty), f.proto.returnType.ty⟩

/-- Whether a program, built with some options, has nothing wrong. -/
structure WellFormed (p : Program) (options : BuildOptions) : Prop where
  /-- No definition repeats a name of its file, or a shared one when it is shared. -/
  unique : (declared p.decls).Pairwise fun f g => ¬ f.Clashes g
  /-- Names of types are known, and no pointer leads to `unreachable`. -/
  types : ∀ f ∈ declared p.decls, ∀ t ∈ f.proto.types, t.IsProper
  /-- Signatures have no directives. -/
  signatures : ∀ f ∈ declared p.decls, f.proto.directives = []
  directives : ∀ x ∈ p.decls, x.2.DirectivesAllowed
  single : (rootExports p.decls).length ≤ 1
  /-- A root export stands in the entry file and asks for a known kind. -/
  exports : ∀ x ∈ rootExports p.decls,
    x.1.isEntry ∧ x.2.kind ∈ ["executable", "library", "object"]
  /-- The artifact has a name and a kind, from the options or from a root export. -/
  named : options.outName.isSome ∨ rootExports p.decls ≠ []
  kinded : options.outKind.isSome ∨ rootExports p.decls ≠ []
  /-- Bodies follow the rules, with the declared type for the value of the body. -/
  bodies : ∀ c d, (c, Decl.fnDef d) ∈ p.decls → ∃ t, Checks (p.env c.index) d.proto.returnType.ty
    (some d.proto.returnType.ty) d.body t

end Program

/-! ### One declaration -/

theorem OutputKind.isSome_ofWord?_iff {w : String} :
    (ofWord? w).isSome ↔ w ∈ ["executable", "library", "object"] := by
  unfold ofWord?
  repeat' split
  all_goals simp_all

theorem Prototype.findings_eq_nil_iff {path : String} {p : Prototype} :
    p.findings path = [] ↔ p.directives = [] ∧ ∀ t ∈ p.types, t.IsProper := by
  simp [findings, TypeRef.findings_eq_nil_iff]

theorem Directive.versionFindings_eq_nil_iff {path : String} {d : Directive} :
    d.versionFindings path = [] ↔ d.name = "version" ∧ (Version.parse? d.param).isSome := by
  unfold versionFindings
  repeat' split
  all_goals simp_all

theorem RootExport.kindFindings_eq_nil_iff {path : String} {e : RootExport} :
    e.kindFindings path = [] ↔ e.kind ∈ ["executable", "library", "object"] := by
  rw [← OutputKind.isSome_ofWord?_iff, kindFindings]
  split <;> simp_all

/-- When the reading of a declaration finds nothing. -/
structure Reading.Accepted (r : Reading) : Prop where
  unique : ∀ f ∈ r.decl.functions r.context.index, r.repeats f = false
  prototypes : ∀ f ∈ r.decl.functions r.context.index,
    f.proto.directives = [] ∧ ∀ t ∈ f.proto.types, t.IsProper
  directives : (∃ u, r.decl = .use u) ∨ r.decl.DirectivesAllowed
  exports : ∀ e, r.decl = .rootExport e →
    r.context.isEntry ∧ r.honored = false ∧ e.kind ∈ ["executable", "library", "object"]

section

variable {r : Reading}

theorem Reading.accepted_fnDef_iff {d : FnDef} (hd : r.decl = .fnDef d) :
    r.findings = [] ↔ r.Accepted := by
  rw [findings_fnDef hd]
  have hf : ∀ f, f ∈ r.decl.functions r.context.index ↔
      f = .defined d.proto d.node.id r.context.index := by
    intro f
    rw [hd, Decl.functions, List.mem_singleton]
  constructor
  · intro h
    split at h
    · cases h
    · next hrep =>
      rw [Prototype.findings_eq_nil_iff] at h
      refine ⟨fun f hfm => ?_, fun f hfm => ?_, .inr (by rw [hd]; trivial), fun e he => ?_⟩
      · rw [(hf f).mp hfm]
        exact Bool.not_eq_true _ ▸ hrep
      · rw [(hf f).mp hfm]
        exact h
      · rw [hd] at he
        cases he
  · intro h
    rw [if_neg]
    · exact Prototype.findings_eq_nil_iff.mpr (h.prototypes _ ((hf _).mpr rfl))
    · rw [h.unique _ ((hf _).mpr rfl)]
      exact Bool.false_ne_true

theorem Reading.accepted_externalBlock_iff {b : ExternalBlock} (hd : r.decl = .externalBlock b) :
    r.findings = [] ↔ r.Accepted := by
  have hf : r.decl.functions r.context.index =
      b.functions.map fun f => .declared f.proto r.context.index := by
    rw [hd, Decl.functions]
  rw [findings_externalBlock hd, List.append_eq_nil_iff, List.map_eq_nil_iff,
    List.filter_eq_nil_iff, List.flatMap_eq_nil_iff]
  constructor
  · rintro ⟨hlink, hprotos⟩
    refine ⟨fun f hfm => ?_, fun f hfm => ?_, .inr ?_, fun e he => ?_⟩
    · obtain ⟨g, -, rfl⟩ := List.mem_map.mp (hf ▸ hfm)
      exact repeats_declared g.proto r.context.index
    · obtain ⟨g, hg, rfl⟩ := List.mem_map.mp (hf ▸ hfm)
      exact Prototype.findings_eq_nil_iff.mp (hprotos g hg)
    · rw [hd]
      intro d hdm
      simpa using hlink d hdm
    · rw [hd] at he
      cases he
  · intro h
    refine ⟨fun d hdm => ?_, fun g hg => ?_⟩
    · rcases h.directives with ⟨u, hu⟩ | hall
      · rw [hd] at hu
        cases hu
      · rw [hd] at hall
        simp [hall d hdm]
    · exact Prototype.findings_eq_nil_iff.mpr (h.prototypes _ (hf ▸ List.mem_map_of_mem hg))

theorem Reading.accepted_rootExport_iff {e : RootExport} (hd : r.decl = .rootExport e) :
    r.findings = [] ↔ r.Accepted := by
  have hf : r.decl.functions r.context.index = [] := by rw [hd, Decl.functions]
  rw [findings_rootExport hd]
  constructor
  · intro h
    split at h
    · next hentry =>
      rw [List.append_eq_nil_iff, List.flatMap_eq_nil_iff] at h
      obtain ⟨hversion, hrest⟩ := h
      split at hrest
      · cases hrest
      · next hhon =>
        refine ⟨by simp [hf], by simp [hf], .inr ?_, fun e' he => ?_⟩
        · rw [hd]
          exact fun d hdm => Directive.versionFindings_eq_nil_iff.mp (hversion d hdm)
        · rw [hd, Decl.rootExport.injEq] at he
          subst he
          exact ⟨hentry, by simpa using hhon, RootExport.kindFindings_eq_nil_iff.mp hrest⟩
    · cases h
  · intro h
    obtain ⟨hentry, hhon, hkind⟩ := h.exports e hd
    rw [if_pos hentry, hhon, List.append_eq_nil_iff, List.flatMap_eq_nil_iff]
    refine ⟨fun d hdm => ?_, RootExport.kindFindings_eq_nil_iff.mpr hkind⟩
    rcases h.directives with ⟨u, hu⟩ | hall
    · rw [hd] at hu
      cases hu
    · rw [hd] at hall
      exact Directive.versionFindings_eq_nil_iff.mpr (hall d hdm)

/-- The reading of a use declaration always is, as its directives come up with the bodies. -/
theorem Reading.accepted_of_use {u : UseDecl} (hd : r.decl = .use u) : r.Accepted := by
  refine ⟨fun f hf => ?_, fun f hf => ?_, .inl ⟨u, hd⟩, fun e he => ?_⟩
  · rw [hd] at hf
    cases hf
  · rw [hd] at hf
    cases hf
  · rw [hd] at he
    cases he

theorem Reading.findings_eq_nil_iff : r.findings = [] ↔ r.Accepted := by
  cases hd : r.decl with
  | fnDef d => exact accepted_fnDef_iff hd
  | externalBlock b => exact accepted_externalBlock_iff hd
  | rootExport e => exact accepted_rootExport_iff hd
  | use u => exact ⟨fun _ => accepted_of_use hd, fun _ => by rw [findings, hd]⟩

end

theorem Reading.Accepted.functions_eq {r : Reading} (h : r.Accepted) :
    r.functions = r.decl.functions r.context.index :=
  List.filter_eq_self.mpr fun f hf => by rw [h.unique f hf]; rfl

/-- A root export that is accepted is honored. -/
theorem Reading.Accepted.toNat_honored {r : Reading} (h : r.Accepted) :
    (r.honored || r.honors.isSome).toNat =
      (rootExports [(r.context, r.decl)]).length + r.honored.toNat := by
  have hexp := h.exports
  unfold honors rootExports
  cases hd : r.decl with
  | rootExport e =>
    obtain ⟨hentry, hhon, -⟩ := hexp e hd
    simp [hentry, hhon]
  | _ => simp

/-- The functions of one declaration do not clash: there is one definition at most. -/
theorem Decl.functions_pairwise (d : Decl) (file : Nat) :
    (d.functions file).Pairwise fun f g => ¬ f.Clashes g := by
  cases d with
  | fnDef d => exact List.pairwise_singleton _ _
  | externalBlock b =>
    refine List.pairwise_map.mpr (List.pairwise_of_forall fun f g hc => ?_)
    cases hc.1
  | rootExport e => exact .nil
  | use u => exact .nil

/-! ### All declarations -/

/-- When the readings of declarations find nothing, given what is known before them. -/
structure SignaturesAccepted (known : List Function) (honored : Bool)
    (l : List (FileContext × Decl)) : Prop where
  fresh : ∀ f ∈ known, ∀ g ∈ declared l, ¬ f.Clashes g
  unique : (declared l).Pairwise fun f g => ¬ f.Clashes g
  prototypes : ∀ f ∈ declared l, f.proto.directives = [] ∧ ∀ t ∈ f.proto.types, t.IsProper
  directives : ∀ x ∈ l, (∃ u, x.2 = .use u) ∨ x.2.DirectivesAllowed
  exports : ∀ x ∈ rootExports l,
    x.1.isEntry ∧ x.2.kind ∈ ["executable", "library", "object"]
  single : (rootExports l).length + honored.toNat ≤ 1

theorem declared_cons (c : FileContext) (d : Decl) (l : List (FileContext × Decl)) :
    declared ((c, d) :: l) = d.functions c.index ++ declared l := rfl

theorem rootExports_cons (x : FileContext × Decl) (l : List (FileContext × Decl)) :
    rootExports (x :: l) = rootExports [x] ++ rootExports l := by
  simp [rootExports]

namespace SignaturesAccepted

variable {known : List Function} {honored : Bool} {c : FileContext} {d : Decl}
  {l : List (FileContext × Decl)}

theorem nil : SignaturesAccepted known honored [] where
  fresh := by simp [declared]
  unique := .nil
  prototypes := by simp [declared]
  directives := by simp
  exports := by simp [rootExports]
  single := by simp [rootExports, Bool.toNat_le]

/-- A declaration is accepted, and so are the others after it. -/
theorem cons (hr : Reading.Accepted ⟨known, honored, c, d⟩)
    (hl : SignaturesAccepted (known ++ Reading.functions ⟨known, honored, c, d⟩)
      (honored || (Reading.honors ⟨known, honored, c, d⟩).isSome) l) :
    SignaturesAccepted known honored ((c, d) :: l) := by
  have hfun := hr.functions_eq
  refine ⟨fun f hf g hg => ?_, ?_, fun f hf => ?_, ?_, fun x hx => ?_, ?_⟩
  · rcases List.mem_append.mp (declared_cons c d l ▸ hg) with hg | hg
    · have hrep := hr.unique g hg
      rw [Reading.repeats, List.any_eq_false] at hrep
      simpa using hrep f hf
    · exact hl.fresh f (List.mem_append_left _ hf) g hg
  · rw [declared_cons, List.pairwise_append]
    refine ⟨d.functions_pairwise _, hl.unique, fun f hf g hg => hl.fresh f ?_ g hg⟩
    rw [hfun]
    exact List.mem_append_right _ hf
  · rcases List.mem_append.mp (declared_cons c d l ▸ hf) with hf | hf
    · exact hr.prototypes f hf
    · exact hl.prototypes f hf
  · exact List.forall_mem_cons.mpr ⟨hr.directives, hl.directives⟩
  · rcases List.mem_append.mp (rootExports_cons (c, d) l ▸ hx) with hx | hx
    · cases d with
      | rootExport e =>
        rw [rootExports, List.flatMap_singleton, List.mem_singleton] at hx
        subst hx
        obtain ⟨hentry, -, hkind⟩ := hr.exports e rfl
        exact ⟨hentry, hkind⟩
      | _ => cases hx
    · exact hl.exports x hx
  · have hsingle := hl.single
    have hnat := hr.toNat_honored
    simp only at hnat
    rw [hnat] at hsingle
    rw [rootExports_cons, List.length_append]
    omega

theorem head (h : SignaturesAccepted known honored ((c, d) :: l)) :
    Reading.Accepted ⟨known, honored, c, d⟩ := by
  refine ⟨fun f hf => ?_, fun f hf => ?_, h.directives _ (List.mem_cons_self ..), ?_⟩
  · rw [Reading.repeats, List.any_eq_false]
    intro g hg
    simpa using h.fresh g hg f (declared_cons c d l ▸ List.mem_append_left _ hf)
  · exact h.prototypes f (declared_cons c d l ▸ List.mem_append_left _ hf)
  · rintro e rfl
    have hmem : (c, e) ∈ rootExports ((c, .rootExport e) :: l) := List.mem_cons_self ..
    obtain ⟨hentry, hkind⟩ := h.exports _ hmem
    refine ⟨hentry, ?_, hkind⟩
    have hsingle := h.single
    rw [rootExports_cons, List.length_append] at hsingle
    cases honored
    · rfl
    · simp [rootExports] at hsingle

theorem tail (h : SignaturesAccepted known honored ((c, d) :: l)) :
    SignaturesAccepted (known ++ Reading.functions ⟨known, honored, c, d⟩)
      (honored || (Reading.honors ⟨known, honored, c, d⟩).isSome) l := by
  have hfun := h.head.functions_eq
  have hpair := h.unique
  rw [declared_cons, List.pairwise_append] at hpair
  refine ⟨fun f hf g hg => ?_, hpair.2.1,
    fun f hf => h.prototypes f (declared_cons c d l ▸ List.mem_append_right _ hf),
    fun x hx => h.directives x (List.mem_cons_of_mem _ hx),
    fun x hx => h.exports x (rootExports_cons (c, d) l ▸ List.mem_append_right _ hx), ?_⟩
  · rw [hfun, List.mem_append] at hf
    rcases hf with hf | hf
    · exact h.fresh f hf g (declared_cons c d l ▸ List.mem_append_right _ hg)
    · exact hpair.2.2 f hf g hg
  · have hsingle := h.single
    have hnat := h.head.toNat_honored
    simp only at hnat
    rw [rootExports_cons, List.length_append] at hsingle
    rw [hnat]
    omega

end SignaturesAccepted

theorem findings_readingsFrom_eq_nil_iff {known : List Function} {honored : Bool}
    {l : List (FileContext × Decl)} :
    (readingsFrom known honored l).flatMap Reading.findings = [] ↔
      SignaturesAccepted known honored l := by
  induction l generalizing known honored with
  | nil => exact ⟨fun _ => .nil, fun _ => rfl⟩
  | cons x l ih =>
    obtain ⟨c, d⟩ := x
    rw [readingsFrom, List.flatMap_cons, List.append_eq_nil_iff, Reading.findings_eq_nil_iff, ih]
    constructor
    · rintro ⟨hr, hl⟩
      exact .cons hr hl
    · intro h
      exact ⟨h.head, h.tail⟩

/-- A program is well formed when its signatures are accepted and its bodies follow the rules. -/
theorem Program.wellFormed_iff {p : Program} {options : BuildOptions} :
    p.WellFormed options ↔ SignaturesAccepted [] false p.decls ∧
      ((∀ c u, (c, Decl.use u) ∈ p.decls → u.directives = []) ∧
        ∀ c d, (c, Decl.fnDef d) ∈ p.decls → ∃ t, Checks (p.env c.index) d.proto.returnType.ty
          (some d.proto.returnType.ty) d.body t) ∧
      (options.outName.isSome ∨ rootExports p.decls ≠ []) ∧
      (options.outKind.isSome ∨ rootExports p.decls ≠ []) := by
  constructor
  · intro h
    refine ⟨⟨?_, h.unique, ?_, fun x hx => .inr (h.directives x hx), h.exports, h.single⟩,
      ⟨fun c u hu => h.directives _ hu, h.bodies⟩, h.named, h.kinded⟩
    · exact fun f hf => absurd hf List.not_mem_nil
    · exact fun f hf => ⟨h.signatures f hf, h.types f hf⟩
  · rintro ⟨hs, ⟨huse, hbodies⟩, hname, hkind⟩
    refine ⟨hs.unique, fun f hf => (hs.prototypes f hf).2, fun f hf => (hs.prototypes f hf).1, ?_,
      hs.single, hs.exports, hname, hkind, hbodies⟩
    rintro ⟨c, d⟩ hx
    rcases hs.directives _ hx with ⟨u, rfl⟩ | hd
    · exact huse c u hx
    · exact hd

end Sema
