import Sema.Proofs.Coverage
import Sema.Proofs.Keyed
import Sema.Proofs.WellFormed

/-!
The tables of functions. Declarations are taken in order, and each adds its functions to those that
are registered before it, but for a definition whose name is taken. The tables of names lead to the
last function of a name, so no definition of a file stands twice under one name, and a file sees the
functions of others only if they are shared.
-/

namespace Sema

namespace Function

/-- The functions after one more declaration. A definition that repeats the name of a function
registered before is left out. -/
def register (known : List Function) (x : FileContext × Decl) : List Function :=
  known ++ (x.2.functions x.1.index).filter fun f => !known.any (·.Clashes f)

/-- Whether a handle leads to the last function that satisfies a test. -/
def LastAt (p : Function → Bool) (fs : List Function) (k : FunctionId) : Prop :=
  (∃ f, fs[k.index]? = some f ∧ p f) ∧
    ∀ (j : Nat) (f : Function), fs[j]? = some f → p f → j ≤ k.index

/-! ### Handles -/

theorem mem_handles_iff {p : Function → Bool} {fs : List Function} {k : FunctionId} :
    k ∈ handles p fs ↔ ∃ f, fs[k.index]? = some f ∧ p f := by
  unfold handles
  simp only [List.mem_map, List.mem_filter, Prod.exists, List.mem_zipIdx_iff_getElem?]
  constructor
  · rintro ⟨f, j, ⟨hf, hp⟩, rfl⟩
    exact ⟨f, hf, hp⟩
  · rintro ⟨f, hf, hp⟩
    exact ⟨f, k.index, ⟨hf, hp⟩, rfl⟩

/-- Handles come in the order of their functions. -/
theorem handles_pairwise (p : Function → Bool) (fs : List Function) :
    (handles p fs).Pairwise fun j k => j.index < k.index := by
  induction fs using List.reverseRecOn with
  | nil => exact .nil
  | append_singleton fs f ih =>
    rw [handles_append]
    split
    · rw [List.pairwise_append]
      refine ⟨ih, List.pairwise_singleton _ _, fun j hj k hk => ?_⟩
      rw [List.mem_singleton] at hk
      subst hk
      exact lt_of_mem_handles hj
    · exact ih

/-- The latest handle leads to the last function. -/
theorem latest_eq_some_iff {p : Function → Bool} {fs : List Function} {k : FunctionId} :
    latest p fs = some k ↔ LastAt p fs k := by
  induction fs using List.reverseRecOn with
  | nil => simp [latest, handles, LastAt]
  | append_singleton fs f ih =>
    rw [latest_append]
    by_cases hp : p f
    · rw [if_pos hp, Option.some.injEq]
      constructor
      · rintro rfl
        refine ⟨⟨f, by simp, hp⟩, fun j g hg _ => ?_⟩
        have hlt := (List.getElem?_eq_some_iff.mp hg).1
        rw [List.length_append, List.length_singleton] at hlt
        exact Nat.le_of_lt_succ hlt
      · obtain ⟨i⟩ := k
        rintro ⟨⟨g, hg, -⟩, hlast⟩
        have hlen : fs.length ≤ i := hlast fs.length f (by simp) hp
        have hlt : i < (fs ++ [f]).length := (List.getElem?_eq_some_iff.mp hg).1
        rw [List.length_append, List.length_singleton] at hlt
        rw [FunctionId.mk.injEq]
        omega
    · rw [if_neg hp, ih]
      unfold LastAt
      simp only [getElem?_append_singleton]
      constructor
      · rintro ⟨⟨g, hg, hpg⟩, hlast⟩
        refine ⟨⟨g, .inl hg, hpg⟩, ?_⟩
        rintro j g' (hj | ⟨-, rfl⟩) hpg'
        · exact hlast j g' hj hpg'
        · exact absurd hpg' hp
      · rintro ⟨⟨g, hg | ⟨-, rfl⟩, hpg⟩, hlast⟩
        · exact ⟨⟨g, hg, hpg⟩, fun j g' hj => hlast j g' (.inl hj)⟩
        · exact absurd hpg hp

/-! ### Registering -/

/-- Registering keeps that no function repeats the name of an earlier one. -/
theorem register_pairwise {known : List Function} (h : known.Pairwise fun f g => ¬ f.Clashes g)
    (x : FileContext × Decl) : (register known x).Pairwise fun f g => ¬ f.Clashes g := by
  unfold register
  rw [List.pairwise_append]
  refine ⟨h, (Decl.functions_pairwise x.2 x.1.index).filter _, fun f hf g hg hclash => ?_⟩
  have hnew := (List.mem_filter.mp hg).2
  rw [Bool.not_eq_true', List.any_eq_false] at hnew
  exact hnew f hf (decide_eq_true hclash)

theorem foldl_register_pairwise (l : List (FileContext × Decl)) {known : List Function}
    (h : known.Pairwise fun f g => ¬ f.Clashes g) :
    (l.foldl register known).Pairwise fun f g => ¬ f.Clashes g := by
  induction l generalizing known with
  | nil => exact h
  | cons x l ih => exact ih (register_pairwise h x)

end Function

/-- The functions known after declarations are those that are registered. -/
theorem append_functions_readingsFrom (known : List Function) (honored : Bool)
    (l : List (FileContext × Decl)) :
    known ++ (readingsFrom known honored l).flatMap Reading.functions =
      l.foldl Function.register known := by
  induction l generalizing known honored with
  | nil => simp [readingsFrom]
  | cons x l ih =>
    obtain ⟨c, d⟩ := x
    rw [readingsFrom, List.flatMap_cons, ← List.append_assoc, ih]
    rfl

namespace Reading

/-- When a definition is left out. -/
theorem mem_redefined_iff {r : Reading} {d : FnDef} (hd : r.decl = .fnDef d) :
    d ∈ r.redefined ↔ ∃ f ∈ r.known, f.name = d.proto.name ∧
      (f.file = r.context.index ∨ f.proto.visibility = .shared ∧ d.proto.visibility = .shared) := by
  have hrep : r.repeats (.defined d.proto d.node.id r.context.index) ↔ ∃ f ∈ r.known,
      f.name = d.proto.name ∧ (f.file = r.context.index ∨
        f.proto.visibility = .shared ∧ d.proto.visibility = .shared) := by
    simp [repeats, Function.Clashes, Function.defined]
  rw [← hrep, redefined_fnDef hd]
  split
  · next h => simp [h]
  · next h => simp [h]

end Reading

namespace Program

variable {p : Program}

theorem functions_eq_foldl (p : Program) : p.functions = p.decls.foldl Function.register [] := by
  have h := append_functions_readingsFrom [] false p.decls
  rwa [List.nil_append] at h

/-- A declaration is met with the functions that are registered before it. -/
theorem reading_at {before after : List (FileContext × Decl)} {c : FileContext} {d : Decl}
    (h : p.decls = before ++ (c, d) :: after) : ∃ r, p.readings[before.length]? = some r ∧
      r.context = c ∧ r.decl = d ∧ r.known = before.foldl Function.register [] := by
  have hlen : (readingsFrom [] false before).length = before.length := by
    conv_rhs => rw [← map_readingsFrom [] false before, List.length_map]
  rw [readings, h, readingsFrom_append, List.getElem?_append_right (Nat.le_of_eq hlen), hlen,
    Nat.sub_self, readingsFrom]
  refine ⟨_, rfl, rfl, rfl, ?_⟩
  exact append_functions_readingsFrom [] false before

/-- The tables of functions that a program must have. -/
structure Registered (p : Program) (b : Analysis) : Prop where
  /-- All functions from outside and all definitions but those left out, in order. -/
  functions : b.functions = p.decls.foldl Function.register []
  /-- Each declaration is met with the functions registered before it. -/
  met : ∀ before c d after, p.decls = before ++ (c, d) :: after →
    ∃ r, p.readings[before.length]? = some r ∧ r.context = c ∧ r.decl = d ∧
      r.known = before.foldl Function.register []
  /-- A definition is left out when its name is taken in its file, or among the shared functions if
  it is shared. -/
  redefined : ∀ r ∈ p.readings, ∀ d, r.decl = .fnDef d → (d ∈ r.redefined ↔
    ∃ f ∈ r.known, f.name = d.proto.name ∧
      (f.file = r.context.index ∨ f.proto.visibility = .shared ∧ d.proto.visibility = .shared))
  /-- Each definition left out is reported once, and no other. -/
  reported : b.findings.filter Finding.isRedefinition =
    p.redefinitions.map fun x => ⟨x.1.path, x.2.node.pos, .redefinition x.2.proto.name⟩
  count : b.locals.length = p.files.length
  locals : ∀ i t, b.locals[i]? = some t → ∀ name k,
    t.get? name = some k ↔ Function.LastAt (Function.isOwn i name) b.functions k
  globals : ∀ name k,
    b.globals.get? name = some k ↔ Function.LastAt (Function.isShared name) b.functions k
  definitions : ∀ k, k ∈ b.definitionIds ↔ ∃ f, b.function? k = some f ∧ f.definition.isSome
  increasing : b.definitionIds.Pairwise fun j k => j.index < k.index
  /-- No two definitions have one name in one scope. -/
  unique : ∀ (i j : Nat) f g, b.functions[i]? = some f → b.functions[j]? = some g →
    f.definition.isSome → g.definition.isSome → f.name = g.name →
    (f.file = g.file ∨ f.proto.visibility = .shared ∧ g.proto.visibility = .shared) → i = j
  /-- A name leads to a function of the file or to a shared one. -/
  visible : ∀ i name k, b.lookupFunction i name = some k → ∃ f, b.function? k = some f ∧
    f.name = name ∧ (f.file = i ∨ f.proto.visibility = .shared)
  /-- A name of the file's own leads to a function of the file. -/
  ownFirst : ∀ i name, (∃ f ∈ b.functions, f.file = i ∧ f.name = name) →
    ∃ k f, b.lookupFunction i name = some k ∧ b.function? k = some f ∧ f.file = i ∧ f.name = name

end Program

namespace Analysis

variable {a : Analysis} {n : Nat}

/-- Of two definitions with one name in one scope the second is not registered. -/
theorem eq_of_same_name (h : a.functions.Pairwise fun f g => ¬ f.Clashes g) {i j : Nat}
    {f g : Function} (hi : a.functions[i]? = some f) (hj : a.functions[j]? = some g)
    (hf : f.definition.isSome) (hg : g.definition.isSome) (hname : f.name = g.name)
    (hscope : f.file = g.file ∨ f.proto.visibility = .shared ∧ g.proto.visibility = .shared) :
    i = j := by
  obtain ⟨hi', rfl⟩ := List.getElem?_eq_some_iff.mp hi
  obtain ⟨hj', rfl⟩ := List.getElem?_eq_some_iff.mp hj
  rw [List.pairwise_iff_getElem] at h
  rcases Nat.lt_trichotomy i j with hlt | heq | hlt
  · exact absurd ⟨hg, hname, hscope⟩ (h i j hi' hj' hlt)
  · exact heq
  · exact absurd ⟨hf, hname.symm, hscope.imp Eq.symm And.symm⟩ (h j i hj' hi' hlt)

/-- A name leads to the last function of the file that has it, or else to the last shared one. -/
theorem Filed.lookupFunction_eq (h : a.Filed n) (i : Nat) (name : String) :
    a.lookupFunction i name = (Function.latest (Function.isOwn i name) a.functions).or
      (Function.latest (Function.isShared name) a.functions) := by
  rw [lookupFunction, h.locals, h.sound.globals]

theorem Filed.function_of_lookup (h : a.Filed n) {i : Nat} {name : String} {k : FunctionId}
    (hk : a.lookupFunction i name = some k) : ∃ f, a.function? k = some f ∧
      f.name = name ∧ (f.file = i ∨ f.proto.visibility = .shared) := by
  rw [h.lookupFunction_eq, Option.or_eq_some_iff] at hk
  rcases hk with hown | ⟨-, hshared⟩
  · obtain ⟨⟨f, hf, hp⟩, -⟩ := Function.latest_eq_some_iff.mp hown
    simp only [Function.isOwn, Bool.and_eq_true, decide_eq_true_eq] at hp
    exact ⟨f, hf, hp.2, .inl hp.1⟩
  · obtain ⟨⟨f, hf, hp⟩, -⟩ := Function.latest_eq_some_iff.mp hshared
    simp only [Function.isShared, Bool.and_eq_true, decide_eq_true_eq] at hp
    exact ⟨f, hf, hp.2, .inr hp.1⟩

theorem Filed.lookup_own (h : a.Filed n) {i : Nat} {name : String}
    (hown : ∃ f ∈ a.functions, f.file = i ∧ f.name = name) :
    ∃ k f, a.lookupFunction i name = some k ∧ a.function? k = some f ∧ f.file = i ∧
      f.name = name := by
  obtain ⟨f, hf, hfile, hname⟩ := hown
  have hsome : (Function.latest (Function.isOwn i name) a.functions).isSome :=
    Function.isSome_latest_iff.mpr ⟨f, hf, by simp [Function.isOwn, hfile, hname]⟩
  obtain ⟨k, hk⟩ := Option.isSome_iff_exists.mp hsome
  obtain ⟨⟨g, hg, hp⟩, -⟩ := Function.latest_eq_some_iff.mp hk
  simp only [Function.isOwn, Bool.and_eq_true, decide_eq_true_eq] at hp
  exact ⟨k, g, by rw [h.lookupFunction_eq, hk]; rfl, hg, hp⟩

end Analysis

namespace Program

variable {p : Program} {options : BuildOptions}

/-- A result has the tables of functions that its program must have. -/
theorem analyze_registers {b : Analysis} (h : p.analyze options = .ok b) : p.Registered b := by
  obtain ⟨a, notes, ha, -, -, rfl⟩ := analyze_eq_ok_iff.mp h
  obtain ⟨hfiled, hruns⟩ := signatures_ok ha
  have hfunctions : a.functions = p.decls.foldl Function.register [] :=
    (functions_eq hruns).trans p.functions_eq_foldl
  have hpairwise : a.functions.Pairwise fun f g => ¬ f.Clashes g :=
    hfunctions ▸ Function.foldl_register_pairwise p.decls .nil
  refine ⟨hfunctions, fun _ _ _ _ => reading_at, fun r _ d hd => Reading.mem_redefined_iff hd,
    filter_findings_result ha, hfiled.count, fun i t ht name k => ?_, fun name k => ?_,
    fun k => ?_, ?_, fun i j f g => Analysis.eq_of_same_name hpairwise,
    fun i name k => hfiled.function_of_lookup, fun i name => hfiled.lookup_own⟩
  · have hlocal := hfiled.locals i name
    rw [ht, Option.bind_some] at hlocal
    rw [hlocal, Function.latest_eq_some_iff]
  · rw [hfiled.sound.globals, Function.latest_eq_some_iff]
  · rw [hfiled.sound.definitions]
    exact Function.mem_handles_iff
  · rw [hfiled.sound.definitions]
    exact Function.handles_pairwise _ _

end Program

/-- A function without parameters that has `void` as its result and as its body. -/
def FnDef.trivial (i : Nat) (name : String) (visibility : Visibility) : FnDef :=
  ⟨.numbered i, ⟨.numbered (i + 1), name, visibility, [], .named (.numbered (i + 2)) "void", []⟩,
    .void (.numbered (i + 3))⟩

/-- Two files that use the names `put` and `two` for several functions. -/
def Program.crowded : Program where
  files := [
    ⟨"main.kiln", .numbered 0, [
      .externalBlock ⟨.numbered 1, [], [⟨.numbered 2,
        ⟨.numbered 3, "put", .shared, [], .named (.numbered 4) "void", []⟩⟩]⟩,
      .fnDef (.trivial 10 "put" .fileOnly),
      .fnDef (.trivial 20 "two" .shared)]⟩,
    ⟨"two.kiln", .numbered 5, [
      .fnDef (.trivial 30 "put" .shared),
      .fnDef (.trivial 40 "put" .fileOnly),
      .fnDef (.trivial 50 "two" .shared)]⟩]
  entry := 0

/-- Only the external `put`, the first `two` and the second file's own `put` are registered. -/
theorem Program.crowded_registered : ∃ b, crowded.analyze .none = .ok b ∧
    b.functions.map (fun f => (f.name, f.file)) = [("put", 0), ("two", 0), ("put", 1)] ∧
    crowded.Registered b :=
  ⟨_, rfl, rfl, analyze_registers rfl⟩

end Sema
