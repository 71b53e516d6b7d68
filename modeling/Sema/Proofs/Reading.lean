import Sema.Proofs.Live
import Sema.Proofs.Registration
import Sema.Proofs.Resolution

/-!
What the signatures of a program amount to, told without any table. Declarations are taken in order;
each is read with the functions known before it, and a definition that repeats one of their names adds
none.
-/

namespace Sema

/-- The functions that a declaration of a file introduces. -/
def Decl.functions (file : Nat) : Decl → List Function
  | .fnDef d => [.defined d.proto d.node.id file]
  | .externalBlock b => b.functions.map fun f => .declared f.proto file
  | .rootExport _ => []
  | .use _ => []

/-- The nodes of a declaration that can be noted: written types, expressions and definitions. -/
def Decl.ids : Decl → List NodeId
  | .fnDef d => d.proto.parts.map (·.node.id) ++ d.body.parts.map Expr.id ++ [d.node.id]
  | .externalBlock b => b.functions.flatMap fun f => f.proto.parts.map (·.node.id)
  | .rootExport _ => []
  | .use _ => []

/-- The libraries that a declaration asks to link with. -/
def Decl.links : Decl → List String
  | .externalBlock b => (b.directives.filter (·.name = "link")).map (·.param)
  | _ => []

/-- What is wrong with a directive of a root export. -/
def Directive.versionFindings (path : String) (d : Directive) : List Finding :=
  if d.name = "version" then
    if (Version.parse? d.param).isSome then [] else [⟨path, d.node.pos, .invalidVersion⟩]
  else [d.refusal path]

/-- What is wrong with the kind that a root export asks for. -/
def RootExport.kindFindings (path : String) (e : RootExport) : List Finding :=
  if (OutputKind.ofWord? e.kind).isSome then []
  else [⟨path, e.node.pos, .unknownOutputKind e.kind⟩]

/-- The last valid version among directives. -/
def lastVersion? (ds : List Directive) : Option Version :=
  ((ds.filter (·.name = "version")).filterMap (Version.parse? ·.param)).getLast?

/-- The artifact when a root export is honored: it fills what is open. -/
def Output.honor (o : Output) (e : RootExport) : Output where
  kind := o.kind.or (OutputKind.ofWord? e.kind)
  name := o.name.or (some e.name)
  version := (lastVersion? e.directives).or o.version
  decl := some e.node.id

/-- A declaration as it is met: the functions known before it, and whether a root export was honored
before it. -/
structure Reading where
  known : List Function
  honored : Bool
  context : FileContext
  decl : Decl

namespace Reading

/-- Whether a new function repeats the name of a known one. -/
def repeats (r : Reading) (f : Function) : Bool := r.known.any (·.Clashes f)

/-- The functions added. -/
def functions (r : Reading) : List Function :=
  (r.decl.functions r.context.index).filter (!r.repeats ·)

/-- The definition that is left out because it repeats a name. -/
def redefined (r : Reading) : List FnDef :=
  match r.decl with
  | .fnDef d => if r.repeats (.defined d.proto d.node.id r.context.index) then [d] else []
  | _ => []

/-- The root export that is honored. -/
def honors (r : Reading) : Option RootExport :=
  match r.decl with
  | .rootExport e => if r.context.isEntry && !r.honored then some e else none
  | _ => none

/-- The notes written, in order. -/
def noted (r : Reading) : List (NodeId × NoteKind) :=
  r.functions.flatMap (·.proto.parts.map TypeRef.noted) ++
    r.redefined.map fun d => (d.node.id, .fnDef true)

/-- Whether no name in the signatures that are resolved looks like a pointer. -/
def IsPlain (r : Reading) : Prop := ∀ f ∈ r.functions, f.proto.IsPlain

/-- What is found. -/
def findings (r : Reading) : List Finding :=
  let path := r.context.path
  match r.decl with
  | .fnDef d =>
      if r.repeats (.defined d.proto d.node.id r.context.index) then
        [⟨path, d.node.pos, .redefinition d.proto.name⟩]
      else d.proto.findings path
  | .externalBlock b =>
      (b.directives.filter (·.name ≠ "link")).map (Directive.refusal path) ++
        b.functions.flatMap (·.proto.findings path)
  | .rootExport e =>
      if r.context.isEntry then
        e.directives.flatMap (Directive.versionFindings path) ++
          if r.honored then [⟨path, e.node.pos, .repeatedExport⟩] else e.kindFindings path
      else [⟨path, e.node.pos, .exportOutsideEntry⟩]
  | .use _ => []

section

variable {r : Reading} {d : FnDef} (hd : r.decl = .fnDef d)
include hd

theorem functions_fnDef : r.functions =
    if r.repeats (.defined d.proto d.node.id r.context.index) then []
    else [.defined d.proto d.node.id r.context.index] := by
  rw [functions, hd, Decl.functions, List.filter_singleton]
  cases r.repeats (.defined d.proto d.node.id r.context.index) <;> rfl

theorem redefined_fnDef : r.redefined =
    if r.repeats (.defined d.proto d.node.id r.context.index) then [d] else [] := by
  rw [redefined, hd]

theorem findings_fnDef : r.findings =
    if r.repeats (.defined d.proto d.node.id r.context.index) then
      [⟨r.context.path, d.node.pos, .redefinition d.proto.name⟩]
    else d.proto.findings r.context.path := by
  rw [findings, hd]

end

/-- A function from outside repeats no name. -/
theorem repeats_declared {r : Reading} (p : Prototype) (file : Nat) :
    r.repeats (.declared p file) = false := by
  simp [repeats, Function.Clashes, Function.declared]

theorem functions_externalBlock {r : Reading} {b : ExternalBlock} (hd : r.decl = .externalBlock b) :
    r.functions = b.functions.map fun f => .declared f.proto r.context.index := by
  rw [functions, hd, Decl.functions, List.filter_eq_self]
  intro f hf
  obtain ⟨g, -, rfl⟩ := List.mem_map.mp hf
  rw [repeats_declared]
  rfl

theorem findings_rootExport {r : Reading} {e : RootExport} (hd : r.decl = .rootExport e) :
    r.findings = if r.context.isEntry then
      e.directives.flatMap (Directive.versionFindings r.context.path) ++
        if r.honored then [⟨r.context.path, e.node.pos, .repeatedExport⟩]
        else e.kindFindings r.context.path
    else [⟨r.context.path, e.node.pos, .exportOutsideEntry⟩] := by
  rw [findings, hd]

theorem findings_externalBlock {r : Reading} {b : ExternalBlock} (hd : r.decl = .externalBlock b) :
    r.findings = (b.directives.filter (·.name ≠ "link")).map (Directive.refusal r.context.path) ++
      b.functions.flatMap (·.proto.findings r.context.path) := by
  rw [findings, hd]

/-- The report of a definition that repeats a name. -/
def redefinition (r : Reading) (d : FnDef) : Finding :=
  ⟨r.context.path, d.node.pos, .redefinition d.proto.name⟩

/-- Signatures are at fault for their directives and for their types. -/
theorem filter_prototype_findings {q : Finding → Bool} (hq : ∀ f, q f → f.ofType = false)
    (hdirective : ∀ file pos name, q ⟨file, pos, .invalidDirective name⟩ = false) (path : String)
    (p : Prototype) : (p.findings path).filter q = [] := by
  rw [Prototype.findings, List.filter_append, List.append_eq_nil_iff, List.filter_flatMap,
    List.flatMap_eq_nil_iff, List.filter_eq_nil_iff]
  refine ⟨fun f hf => ?_, fun t _ => t.filter_findings hq path⟩
  obtain ⟨d, -, rfl⟩ := List.mem_map.mp hf
  exact Bool.eq_false_iff.mp (hdirective _ _ _)

/-- A redefinition is reported for each definition that is left out, and for no other. -/
theorem filter_findings (r : Reading) :
    r.findings.filter Finding.isRedefinition = r.redefined.map r.redefinition := by
  have hproto := filter_prototype_findings (q := Finding.isRedefinition)
    (fun _ => Finding.ofType_eq_false_of_isRedefinition) (fun _ _ _ => rfl) r.context.path
  cases hd : r.decl with
  | fnDef d =>
    rw [findings_fnDef hd, redefined_fnDef hd]
    split
    · rfl
    · exact hproto _
  | externalBlock b =>
    have hnone : r.redefined = [] := by rw [redefined, hd]
    rw [findings_externalBlock hd, hnone, List.filter_append, List.filter_flatMap, List.map_nil,
      List.append_eq_nil_iff, List.flatMap_eq_nil_iff, List.filter_eq_nil_iff]
    refine ⟨fun f hf => ?_, fun f _ => hproto _⟩
    obtain ⟨d, -, rfl⟩ := List.mem_map.mp hf
    exact Bool.false_ne_true
  | rootExport e =>
    have hnone : r.redefined = [] := by rw [redefined, hd]
    rw [findings_rootExport hd, hnone, List.map_nil]
    split
    · rw [List.filter_append, List.filter_flatMap, List.append_eq_nil_iff, List.flatMap_eq_nil_iff]
      refine ⟨fun d _ => ?_, ?_⟩
      · unfold Directive.versionFindings
        repeat' split
        all_goals rfl
      · unfold RootExport.kindFindings
        repeat' split
        all_goals rfl
    · rfl
  | use u =>
    rw [findings, redefined, hd]
    rfl

end Reading

/-- The readings of declarations, given what is known before them. -/
def readingsFrom (known : List Function) (honored : Bool) : List (FileContext × Decl) → List Reading
  | [] => []
  | (c, d) :: rest =>
      let r : Reading := ⟨known, honored, c, d⟩
      r :: readingsFrom (known ++ r.functions) (honored || r.honors.isSome) rest

theorem readingsFrom_append (known : List Function) (honored : Bool)
    (l m : List (FileContext × Decl)) :
    readingsFrom known honored (l ++ m) = readingsFrom known honored l ++
      readingsFrom (known ++ (readingsFrom known honored l).flatMap Reading.functions)
        (honored || (readingsFrom known honored l).any (·.honors.isSome)) m := by
  induction l generalizing known honored with
  | nil => simp [readingsFrom]
  | cons p l ih =>
    obtain ⟨c, d⟩ := p
    simp only [List.cons_append, readingsFrom, ih, List.flatMap_cons, List.append_assoc,
      List.any_cons, Bool.or_assoc]

theorem map_readingsFrom (known : List Function) (honored : Bool) (l : List (FileContext × Decl)) :
    (readingsFrom known honored l).map (fun r => (r.context, r.decl)) = l := by
  induction l generalizing known honored with
  | nil => rfl
  | cons x l ih => rw [readingsFrom, List.map_cons, ih]

namespace Program

/-- The declarations of files from an index on, each with its file. -/
def declsFrom (entry : Nat) (i : Nat) : List SourceFile → List (FileContext × Decl)
  | [] => []
  | f :: rest => f.decls.map (⟨i, f.path, i == entry⟩, ·) ++ declsFrom entry (i + 1) rest

/-- The declarations of a program in order. -/
def decls (p : Program) : List (FileContext × Decl) := declsFrom p.entry.toNat 0 p.files

/-- The nodes of a program that can be noted. -/
def ids (p : Program) : List NodeId := p.decls.flatMap (·.2.ids)

/-- The declarations as they are met. -/
def readings (p : Program) : List Reading := readingsFrom [] false p.decls

/-- The functions of a program, without the definitions that repeat a name. -/
def functions (p : Program) : List Function := p.readings.flatMap Reading.functions

theorem declsFrom_append (entry : Nat) : ∀ (fs gs : List SourceFile) (i : Nat),
    declsFrom entry i (fs ++ gs) = declsFrom entry i fs ++ declsFrom entry (i + fs.length) gs
  | [], gs, i => by simp [declsFrom]
  | f :: fs, gs, i => by
    rw [List.cons_append, declsFrom, declsFrom, declsFrom_append entry fs gs (i + 1),
      List.append_assoc, List.length_cons, Nat.add_assoc, Nat.add_comm 1]

variable {p : Program}

/-- What is collected from declarations can be collected from their readings. -/
theorem flatMap_decls {α : Type} (f : FileContext × Decl → List α) :
    p.decls.flatMap f = p.readings.flatMap fun r => f (r.context, r.decl) := by
  conv_lhs => rw [← map_readingsFrom [] false p.decls, List.flatMap_map]
  rfl

/-- What is collected from declarations whatever their files are. -/
theorem flatMap_snd_decls {α : Type} (p : Program) (g : Decl → List α) :
    (p.decls.flatMap fun x => g x.2) = p.files.flatMap fun f => f.decls.flatMap g := by
  have hfrom : ∀ (fs : List SourceFile) (i : Nat),
      ((declsFrom p.entry.toNat i fs).flatMap fun x => g x.2) =
        fs.flatMap fun f => f.decls.flatMap g := by
    intro fs
    induction fs with
    | nil => exact fun _ => rfl
    | cons f fs ih =>
      intro i
      rw [declsFrom, List.flatMap_append, List.flatMap_map, ih, List.flatMap_cons]
  exact hfrom p.files 0

theorem ids_eq (p : Program) : p.ids = p.readings.flatMap (·.decl.ids) :=
  flatMap_decls fun x => x.2.ids

theorem index_lt_of_mem_declsFrom {entry : Nat} {c : FileContext} {d : Decl} :
    ∀ {fs : List SourceFile} {i : Nat}, (c, d) ∈ declsFrom entry i fs → c.index < i + fs.length
  | [], _, h => by cases h
  | f :: fs, i, h => by
    rw [declsFrom, List.mem_append] at h
    rw [List.length_cons]
    rcases h with h | h
    · obtain ⟨_, -, heq⟩ := List.mem_map.mp h
      obtain ⟨rfl, -⟩ := Prod.mk.inj heq
      exact Nat.lt_add_of_pos_right (Nat.succ_pos _)
    · have := index_lt_of_mem_declsFrom h
      omega

/-- Declarations are in files of the program. -/
theorem index_lt_of_mem_decls {c : FileContext} {d : Decl} (h : (c, d) ∈ p.decls) :
    c.index < p.files.length := by
  have := index_lt_of_mem_declsFrom h
  rwa [Nat.zero_add] at this

/-- Every declaration is read once it is met. -/
theorem exists_reading {c : FileContext} {d : Decl} (h : (c, d) ∈ p.decls) :
    ∃ r ∈ p.readings, r.context = c ∧ r.decl = d := by
  rw [← map_readingsFrom [] false p.decls] at h
  obtain ⟨r, hr, heq⟩ := List.mem_map.mp h
  exact ⟨r, hr, Prod.mk.inj heq⟩

end Program

end Sema
