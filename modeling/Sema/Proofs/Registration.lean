import Mathlib.Data.List.Basic
import Mathlib.Data.List.Induction
import Sema.Analysis
import Sema.Analysis.Signatures

/-!
How functions get their names. A name stands for the last function that was given it, in its file or
among the shared ones. A definition must not repeat a name that is taken in its scope.
-/

namespace Sema

namespace Function

/-- Whether a definition repeats the name of an earlier function: of one of its file, or of a shared
one when it is shared itself. -/
def Clashes (earlier later : Function) : Prop :=
  later.definition.isSome ∧ earlier.name = later.name ∧
    (earlier.file = later.file ∨
      earlier.proto.visibility = .shared ∧ later.proto.visibility = .shared)

instance (f g : Function) : Decidable (f.Clashes g) := by unfold Clashes; infer_instance

/-- Whether a function of a file has a name. -/
def isOwn (file : Nat) (name : String) (f : Function) : Bool := f.file = file && f.name = name

/-- Whether a function that every file sees has a name. -/
def isShared (name : String) (f : Function) : Bool :=
  f.proto.visibility = .shared && f.name = name

/-- The handles of the functions that satisfy a test. -/
def handles (p : Function → Bool) (fs : List Function) : List FunctionId :=
  (fs.zipIdx.filter (p ·.1)).map fun x => ⟨x.2⟩

/-- The handle of the last function that satisfies a test. -/
def latest (p : Function → Bool) (fs : List Function) : Option FunctionId :=
  (handles p fs).getLast?

/-- The function that a name stands for in a file. -/
def visible (file : Nat) (name : String) (fs : List Function) : Option Function :=
  ((fs.filter (isOwn file name)).getLast?).or ((fs.filter (isShared name)).getLast?)

theorem handles_append (p : Function → Bool) (fs : List Function) (f : Function) :
    handles p (fs ++ [f]) = if p f then handles p fs ++ [⟨fs.length⟩] else handles p fs := by
  rw [handles, List.zipIdx_append, List.filter_append]
  by_cases h : p f <;> simp [h, handles]

theorem lt_of_mem_handles {p : Function → Bool} {fs : List Function} {k : FunctionId}
    (h : k ∈ handles p fs) : k.index < fs.length := by
  obtain ⟨x, hx, rfl⟩ := List.mem_map.mp h
  have hlt := (List.mem_zipIdx (List.mem_filter.mp hx).1).2.1
  rwa [Nat.zero_add] at hlt

/-- The handles lead to the functions that satisfy the test. -/
theorem filterMap_handles (p : Function → Bool) (fs : List Function) :
    (handles p fs).filterMap (fun k => fs[k.index]?) = fs.filter p := by
  induction fs using List.reverseRecOn with
  | nil => rfl
  | append_singleton fs f ih =>
    have hold : (handles p fs).filterMap (fun k => (fs ++ [f])[k.index]?) = fs.filter p := by
      rw [← ih]
      refine List.filterMap_congr fun k hk => ?_
      rw [List.getElem?_append_left (lt_of_mem_handles hk)]
    rw [handles_append, List.filter_append]
    by_cases hf : p f
    · simp [hf, hold]
    · simp [hf, hold]

theorem latest_append (p : Function → Bool) (fs : List Function) (f : Function) :
    latest p (fs ++ [f]) = if p f then some ⟨fs.length⟩ else latest p fs := by
  rw [latest, handles_append]
  split
  · rw [List.getLast?_append, List.getLast?_singleton, Option.some_or]
  · rfl

/-- The handle found leads to the function found. -/
theorem latest_spec (p : Function → Bool) (fs : List Function) :
    match latest p fs with
    | some i => ∃ f, fs[i.index]? = some f ∧ (fs.filter p).getLast? = some f
    | none => (fs.filter p).getLast? = none := by
  induction fs using List.reverseRecOn with
  | nil => rfl
  | append_singleton fs f ih =>
    rw [latest_append, List.filter_append]
    by_cases h : p f
    · rw [if_pos h]
      exact ⟨f, by simp, by simp [h]⟩
    · rw [if_neg h]
      cases hl : latest p fs with
      | some i =>
        rw [hl] at ih
        obtain ⟨g, hg, hlast⟩ := ih
        obtain ⟨hlt, -⟩ := List.getElem?_eq_some_iff.mp hg
        exact ⟨g, by rw [List.getElem?_append_left hlt]; exact hg, by simpa [h] using hlast⟩
      | none =>
        rw [hl] at ih
        simpa [h] using ih

theorem lt_of_latest {p : Function → Bool} {fs : List Function} {k : FunctionId}
    (h : latest p fs = some k) : k.index < fs.length := lt_of_mem_handles (List.mem_of_getLast? h)

theorem latest_append_of_forall_not {p : Function → Bool} (fs gs : List Function)
    (h : ∀ g ∈ gs, p g = false) : latest p (fs ++ gs) = latest p fs := by
  induction gs using List.reverseRecOn with
  | nil => rw [List.append_nil]
  | append_singleton gs g ih =>
    rw [← List.append_assoc, latest_append, if_neg]
    · exact ih fun x hx => h x (List.mem_append_left _ hx)
    · rw [h g (by simp)]
      exact Bool.false_ne_true

/-- A file without functions has no names. -/
theorem latest_isOwn_eq_none {i : Nat} {fs : List Function} (h : ∀ f ∈ fs, f.file ≠ i)
    (name : String) : latest (isOwn i name) fs = none := by
  have hnone := latest_append_of_forall_not (p := isOwn i name) [] fs fun f hf => by
    simp [isOwn, h f hf]
  rwa [List.nil_append] at hnone

/-- The handle of the function that a name stands for. -/
theorem latest_or_spec (i : Nat) (name : String) (fs : List Function) :
    match (latest (isOwn i name) fs).or (latest (isShared name) fs) with
    | some k => ∃ f, fs[k.index]? = some f ∧ visible i name fs = some f
    | none => visible i name fs = none := by
  have hown := latest_spec (isOwn i name) fs
  have hshared := latest_spec (isShared name) fs
  unfold visible
  cases h1 : latest (isOwn i name) fs with
  | some k =>
    rw [h1] at hown
    obtain ⟨f, hf, hlast⟩ := hown
    exact ⟨f, hf, by rw [hlast]; rfl⟩
  | none =>
    rw [h1] at hown
    rw [hown]
    exact hshared

theorem isSome_latest_iff {p : Function → Bool} {fs : List Function} :
    (latest p fs).isSome ↔ ∃ f ∈ fs, p f := by
  have hspec := latest_spec p fs
  cases hl : latest p fs with
  | some i =>
    rw [hl] at hspec
    obtain ⟨f, -, hf⟩ := hspec
    have hm := List.mem_filter.mp (List.mem_of_getLast? hf)
    exact ⟨fun _ => ⟨f, hm⟩, fun _ => rfl⟩
  | none =>
    rw [hl, List.getLast?_eq_none_iff, List.filter_eq_nil_iff] at hspec
    constructor
    · intro h
      cases h
    · rintro ⟨f, hf, hp⟩
      exact absurd hp (hspec f hf)

end Function

end Sema
