import Sema.Proofs.FunctionTables

/-!
Who keeps a name. A definition is refused when its name is taken in its scope, but a function from
outside is bound whatever its name stands for. So a definition keeps its name in its file, and among
the shared functions if it is shared, until a function from outside is declared after it.
-/

namespace Sema

namespace Function

/-- Whether a function from outside is declared after the function at `k` and satisfies a test. -/
def TakenLater (p : Function → Bool) (fs : List Function) (k : FunctionId) : Prop :=
  ∃ j f, fs[j]? = some f ∧ k.index < j ∧ p f ∧ f.isDeclaredOnly

section

variable {fs : List Function} {k : FunctionId} {d : Function}

/-- Where names do not clash, a later function of the name of a definition is one from outside. -/
theorem isDeclaredOnly_of_later (h : fs.Pairwise fun f g => ¬ f.Clashes g)
    (hd : fs[k.index]? = some d) {j : Nat} {f : Function} (hf : fs[j]? = some f)
    (hlt : k.index < j) (hname : d.name = f.name)
    (hscope : d.file = f.file ∨ d.proto.visibility = .shared ∧ f.proto.visibility = .shared) :
    f.isDeclaredOnly := by
  obtain ⟨hi, rfl⟩ := List.getElem?_eq_some_iff.mp hd
  obtain ⟨hj, rfl⟩ := List.getElem?_eq_some_iff.mp hf
  have hnot := List.pairwise_iff_getElem.mp h k.index j hi hj hlt
  rw [isDeclaredOnly, ← Option.not_isSome, Bool.not_eq_true']
  rw [← Bool.not_eq_true]
  exact fun hsome => hnot ⟨hsome, hname, hscope⟩

/-- A function is the last of its name unless one from outside comes later. -/
theorem latest_eq_some_iff_not_takenLater {p : Function → Bool}
    (hd : fs[k.index]? = some d) (hp : p d)
    (hlater : ∀ j f, fs[j]? = some f → k.index < j → p f → f.isDeclaredOnly) :
    latest p fs = some k ↔ ¬ TakenLater p fs k := by
  rw [latest_eq_some_iff]
  constructor
  · rintro ⟨-, hlast⟩ ⟨j, f, hf, hlt, hpf, -⟩
    exact absurd (hlast j f hf hpf) (Nat.not_le_of_lt hlt)
  · intro hnot
    refine ⟨⟨d, hd, hp⟩, fun j f hf hpf => ?_⟩
    by_contra hle
    have hlt : k.index < j := Nat.lt_of_not_le hle
    exact hnot ⟨j, f, hf, hlt, hpf, hlater j f hf hlt hpf⟩

end

end Function

namespace Program

variable {p : Program} {options : BuildOptions} {b : Analysis}

/-- Where no redefinition is reported, no definition is left out. -/
theorem mem_functions_of_not_reported {a : Analysis}
    (h : (Analysis.initial options).Runs p.readings a)
    (hnone : a.findings.filter Finding.isRedefinition = []) {c : FileContext} {d : FnDef}
    (hd : (c, Decl.fnDef d) ∈ p.decls) : .defined d.proto d.node.id c.index ∈ a.functions := by
  obtain ⟨r, hr, rfl, hdecl⟩ := exists_reading hd
  rw [filter_findings_eq h, List.flatMap_eq_nil_iff] at hnone
  have hred : r.redefined = [] := List.map_eq_nil_iff.mp (hnone r hr)
  have hfun := Reading.functions_fnDef hdecl
  rw [Reading.redefined_fnDef hdecl] at hred
  split at hred
  · cases hred
  · next hrep =>
    rw [if_neg hrep] at hfun
    rw [functions_eq h]
    exact List.mem_flatMap.mpr ⟨r, hr, hfun ▸ List.mem_singleton_self _⟩

/-- A registered function, and so every definition, keeps its name in its file unless a function
from outside is declared in the file under that name after it; among the shared functions a shared
one does likewise. No function before it clashes with it; and where no redefinition is reported every
definition is registered. -/
theorem analyze_keeps_names (h : p.analyze options = .ok b) {k : FunctionId} {d : Function}
    (hd : b.function? k = some d) :
    (b.lookupFunction d.file d.name = some k ↔
      ¬ Function.TakenLater (Function.isOwn d.file d.name) b.functions k) ∧
    (d.proto.visibility = .shared → (b.globals.get? d.name = some k ↔
      ¬ Function.TakenLater (Function.isShared d.name) b.functions k)) ∧
    (∀ j f, b.functions[j]? = some f → j < k.index → ¬ f.Clashes d) ∧
    (b.findings.filter Finding.isRedefinition = [] → ∀ c e, (c, Decl.fnDef e) ∈ p.decls →
      .defined e.proto e.node.id c.index ∈ b.functions) := by
  obtain ⟨a, notes, ha, -, -, rfl⟩ := analyze_eq_ok_iff.mp h
  obtain ⟨hfiled, hruns⟩ := signatures_ok ha
  have hpairwise : a.functions.Pairwise fun f g => ¬ f.Clashes g := by
    rw [functions_eq hruns, functions_eq_foldl]
    exact Function.foldl_register_pairwise p.decls .nil
  have hfun : a.functions[k.index]? = some d := hd
  refine ⟨?_, fun hshared => ?_, fun j f hf hlt hclash => ?_, fun hnone c e he => ?_⟩
  · have hown : Function.isOwn d.file d.name d := by simp [Function.isOwn]
    have hsome : (Function.latest (Function.isOwn d.file d.name) a.functions).isSome :=
      Function.isSome_latest_iff.mpr ⟨d, List.mem_of_getElem? hfun, hown⟩
    obtain ⟨i, hi⟩ := Option.isSome_iff_exists.mp hsome
    have hlook : a.lookupFunction d.file d.name =
        Function.latest (Function.isOwn d.file d.name) a.functions := by
      rw [hfiled.lookupFunction_eq, hi]
      rfl
    change a.lookupFunction d.file d.name = some k ↔ _
    rw [hlook]
    refine Function.latest_eq_some_iff_not_takenLater hfun hown fun j f hf hlt hpf => ?_
    simp only [Function.isOwn, Bool.and_eq_true, decide_eq_true_eq] at hpf
    exact Function.isDeclaredOnly_of_later hpairwise hfun hf hlt hpf.2.symm (.inl hpf.1.symm)
  · have hself : Function.isShared d.name d := by simp [Function.isShared, hshared]
    change a.globals.get? d.name = some k ↔ _
    rw [hfiled.sound.globals]
    refine Function.latest_eq_some_iff_not_takenLater hfun hself fun j f hf hlt hpf => ?_
    simp only [Function.isShared, Bool.and_eq_true, decide_eq_true_eq] at hpf
    exact Function.isDeclaredOnly_of_later hpairwise hfun hf hlt hpf.2.symm
      (.inr ⟨hshared, hpf.1⟩)
  · obtain ⟨hi, rfl⟩ := List.getElem?_eq_some_iff.mp hf
    obtain ⟨hk', rfl⟩ := List.getElem?_eq_some_iff.mp hfun
    exact List.pairwise_iff_getElem.mp hpairwise j k.index hi hk' hlt hclash
  · rw [List.filter_append, List.filter_append, List.append_eq_nil_iff,
      List.append_eq_nil_iff] at hnone
    exact mem_functions_of_not_reported hruns hnone.1.1 he

end Program

/-- A shared function `f`, and after it a shared function `f` from outside. -/
def Program.shadowing : Program where
  files := [⟨"main.kiln", .numbered 0, [
    .fnDef (.trivial 1 "f" .shared),
    .externalBlock ⟨.numbered 5, [], [⟨.numbered 6,
      ⟨.numbered 7, "f", .shared, [], .named (.numbered 8) "void", []⟩⟩]⟩]⟩]
  entry := 0

theorem Program.shadowing_keeps_names :
    ∃ b d, shadowing.analyze ⟨some "app", some .executable⟩ = .ok b ∧ b.function? ⟨0⟩ = some d ∧
      (b.lookupFunction d.file d.name = some ⟨0⟩ ↔
        ¬ Function.TakenLater (Function.isOwn d.file d.name) b.functions ⟨0⟩) ∧
      Function.TakenLater (Function.isOwn d.file d.name) b.functions ⟨0⟩ := by
  have h : shadowing.analyze ⟨some "app", some .executable⟩ = .ok _ := rfl
  exact ⟨_, _, h, rfl, (analyze_keeps_names h rfl).1, 1, _, rfl, by decide, by decide, by decide⟩

/-- Nothing is reported, and yet the name of the definition stands for the function from outside, in
its file and among the shared functions. -/
theorem Program.shadowing_silent :
    ∃ b, shadowing.analyze ⟨some "app", some .executable⟩ = .ok b ∧ b.findings = [] ∧
      ∃ k ∈ b.definitionIds, ∃ d, b.function? k = some d ∧ d.proto.visibility = .shared ∧
        b.lookupFunction d.file d.name ≠ some k ∧ b.globals.get? d.name ≠ some k :=
  ⟨_, rfl, rfl, ⟨0⟩, List.mem_singleton_self _, _, rfl, rfl, by decide, by decide⟩

end Sema
