import Mathlib.Data.List.Infix
import Mathlib.Order.Basic
import Sema.Proofs.Keyed
import Sema.Proofs.Ty
import Sema.TypeTable

/-!
What the type table holds. A table that is well formed starts with the built-in types and goes on
with pointers, each to an earlier entry and each there once. So every handle stands for one type,
no two handles stand for the same, and no two types have one name: the name of a pointer tells what
it points to. The maps from names and from pointers to handles are in step with the entries.
-/

namespace Sema

namespace TypeTable

/-- Whether a handle points into the table. -/
def Has (t : TypeTable) (i : TypeId) : Prop := i.index < t.size

/-- Whether a map stands in the order in which handles were given out, the latest first. -/
def LatestFirst {κ : Type} (l : List (κ × TypeId)) : Prop :=
  l.Pairwise fun x y => y.2.index < x.2.index

structure WellFormed (t : TypeTable) : Prop where
  builtin : initial.entries <+: t.entries
  builtins : t.builtins = initial.builtins
  pointer : ∀ i e, t.get? i = some e → 6 ≤ i.index →
    ∃ m c n, e = .pointer m c n ∧ c.index < i.index ∧ t.name? c = some n
  interned : ∀ i j m c n k, t.get? i = some (.pointer m c n) → t.get? j = some (.pointer m c k) →
    i = j
  /-- All names but that of the invalid type lead to their entries, and there are no others. -/
  named : ∀ name i, (name, i) ∈ t.byName ↔ t.name? i = some name ∧ i ≠ .invalid
  pointed : ∀ c m i, ((c, m), i) ∈ t.pointers ↔ ∃ n, t.get? i = some (.pointer m c n)
  namesLatestFirst : LatestFirst t.byName
  pointersLatestFirst : LatestFirst t.pointers

/-- The type that a handle stands for. -/
inductive Denotes (t : TypeTable) : TypeId → Ty → Prop where
  | void : Denotes t .void .void
  | bool : Denotes t .bool .bool
  | i32 : Denotes t .i32 .i32
  | u8 : Denotes t .u8 .u8
  | unreachable : Denotes t .unreachable .unreachable
  | invalid : Denotes t .invalid .invalid
  | pointer {i c : TypeId} {m : Mutability} {n : String} {ty : Ty} :
      t.get? i = some (.pointer m c n) → Denotes t c ty → Denotes t i (.pointer m ty)

/-- Whether an entry is a pointer to the invalid type. -/
def PointsToInvalid (t : TypeTable) : Prop := ∃ i m n, t.get? i = some (.pointer m .invalid n)

/-! ### Entries -/

theorem has_iff_get? {t : TypeTable} {i : TypeId} : t.Has i ↔ ∃ e, t.get? i = some e := by
  simp [Has, get?, size, List.getElem?_eq_some_iff]

theorem has_iff_name? {t : TypeTable} {i : TypeId} : t.Has i ↔ ∃ n, t.name? i = some n := by
  rw [has_iff_get?]
  constructor
  · rintro ⟨e, he⟩
    exact ⟨e.name, by rw [name?, he]; rfl⟩
  · rintro ⟨n, hn⟩
    obtain ⟨e, he, -⟩ := Option.map_eq_some_iff.mp hn
    exact ⟨e, he⟩

theorem get?_mono {t u : TypeTable} (h : t.entries <+: u.entries) {i : TypeId} {e : TypeEntry}
    (he : t.get? i = some e) : u.get? i = some e := by
  obtain ⟨r, hr⟩ := h
  obtain ⟨hlt, -⟩ := List.getElem?_eq_some_iff.mp he
  rw [get?, ← hr, List.getElem?_append_left hlt]
  exact he

theorem Has.mono {t u : TypeTable} (h : t.entries <+: u.entries) {i : TypeId} (hi : t.Has i) :
    u.Has i :=
  lt_of_lt_of_le hi h.length_le

/-- The type of the table that is expected, where there is one. -/
theorem Has.forall_mem_some {t : TypeTable} {i : TypeId} (h : t.Has i) : ∀ j ∈ some i, t.Has j := by
  rintro _ ⟨⟩
  exact h

theorem has_getD {t : TypeTable} {u : Option TypeId} {i : TypeId} (hu : ∀ j ∈ u, t.Has j)
    (hi : t.Has i) : t.Has (u.getD i) := by
  cases u with
  | none => exact hi
  | some j => exact hu j rfl

/-- The type that is expected of the first argument. -/
theorem has_head?_join {t : TypeTable} {params : List (Option TypeId)}
    (h : ∀ p ∈ params, ∀ i ∈ p, t.Has i) : ∀ i ∈ params.head?.join, t.Has i := by
  intro i hi
  cases params with
  | nil => cases hi
  | cons p params => exact h p (List.mem_cons_self ..) i (by simpa using hi)

theorem name?_mono {t u : TypeTable} (h : t.entries <+: u.entries) {i : TypeId} {n : String}
    (hn : t.name? i = some n) : u.name? i = some n := by
  obtain ⟨e, he, rfl⟩ := Option.map_eq_some_iff.mp hn
  rw [name?, get?_mono h he]
  rfl

theorem Denotes.mono {t u : TypeTable} (h : t.entries <+: u.entries) {i : TypeId} {ty : Ty}
    (hi : t.Denotes i ty) : u.Denotes i ty := by
  induction hi with
  | void => exact .void
  | bool => exact .bool
  | i32 => exact .i32
  | u8 => exact .u8
  | unreachable => exact .unreachable
  | invalid => exact .invalid
  | pointer he _ ih => exact .pointer (get?_mono h he) ih

/-! ### Names of pointers -/

/-- The name of a pointer tells its mutability and the name of what it points to. -/
theorem pointer_name_injective {m m' : Mutability} {n n' : String}
    (h : "*" ++ m.word ++ " " ++ n = "*" ++ m'.word ++ " " ++ n') : m = m' ∧ n = n' := by
  have hchars := congrArg String.toList h
  cases m <;> cases m' <;> simp [Mutability.word] at hchars <;> exact ⟨rfl, String.ext hchars⟩

/-- An entry tells of which pointer it is. -/
theorem pointer_injective {m m' : Mutability} {c c' : TypeId} {n n' : String}
    (h : TypeEntry.pointer m c n = .pointer m' c' n') : m = m' ∧ c = c' ∧ n = n' := by
  obtain ⟨rfl, rfl⟩ := pointer_name_injective (congrArg TypeEntry.name h)
  exact ⟨rfl, Shape.pointer.inj (congrArg TypeEntry.shape h), rfl⟩

theorem head?_pointer_name (m : Mutability) (c : TypeId) (n : String) :
    (TypeEntry.pointer m c n).name.toList.head? = some '*' := by
  simp [TypeEntry.pointer]

/-! ### Built-in types -/

/-- The only pointer among the built-in types is the one of string literals. -/
theorem eq_stringLiteral_of_initial {i c : TypeId} {e : TypeEntry}
    (hi : initial.get? i = some e) (he : e.shape = .pointer c) : i = .stringLiteral := by
  obtain ⟨k⟩ := i
  obtain ⟨hlt, rfl⟩ := List.getElem?_eq_some_iff.mp hi
  have hk : k = 0 ∨ k = 1 ∨ k = 2 ∨ k = 3 ∨ k = 4 ∨ k = 5 ∨ k = 6 := by
    simp only [initial_entries, List.length_cons, List.length_nil] at hlt
    omega
  rcases hk with rfl | rfl | rfl | rfl | rfl | rfl | rfl
  case inr.inr.inr.inr.inr.inr => rfl
  all_goals exact absurd he (by simp [initial_entries])

/-- Only the sixth of the built-in types is named as the invalid type is. -/
theorem eq_of_initial_name : ∀ k : Fin initial.entries.length,
    initial.entries[k].name = "(invalid)" → k.val = 5 := by
  decide

/-- Only the last of the built-in types has a name that starts with a star. -/
theorem eq_of_initial_star : ∀ k : Fin initial.entries.length,
    initial.entries[k].name.toList.head? = some '*' → k.val = 6 := by
  decide

/-- The built-in types have different names. -/
theorem initial_name_injective : ∀ k l : Fin initial.entries.length,
    initial.entries[k].name = initial.entries[l].name → k = l := by
  decide

/-- The names of the built-in types lead to them, but for that of the invalid type. -/
theorem mem_initial_byName : ∀ k : Fin initial.entries.length,
    k.val ≠ 5 → (initial.entries[k].name, ⟨k.val⟩) ∈ initial.byName := by
  decide

theorem wellFormed_initial : initial.WellFormed where
  builtin := List.prefix_refl _
  builtins := rfl
  pointer := by
    rintro ⟨k⟩ e he hk
    obtain ⟨hlt, rfl⟩ := List.getElem?_eq_some_iff.mp he
    have hk6 : k = 6 := by simp [initial_entries] at hlt hk; omega
    subst hk6
    exact ⟨.constant, .u8, "u8", rfl, by decide, rfl⟩
  interned := by
    intro i j m c n k hi hj
    rw [eq_stringLiteral_of_initial hi rfl, eq_stringLiteral_of_initial hj rfl]
  named := by
    rintro name ⟨k⟩
    constructor
    · simp only [initial_byName, List.mem_cons, List.not_mem_nil, or_false, Prod.mk.injEq]
      rintro (⟨rfl, h⟩ | ⟨rfl, h⟩ | ⟨rfl, h⟩ | ⟨rfl, h⟩ | ⟨rfl, h⟩ | ⟨rfl, h⟩) <;>
        exact h ▸ ⟨rfl, by decide⟩
    · rintro ⟨hn, hne⟩
      obtain ⟨e, he, rfl⟩ := Option.map_eq_some_iff.mp hn
      obtain ⟨hlt, rfl⟩ := List.getElem?_eq_some_iff.mp he
      exact mem_initial_byName ⟨k, hlt⟩ fun hk => hne (congrArg TypeId.mk hk)
  pointed := by
    rintro c m i
    rw [initial_pointers, List.mem_singleton, Prod.mk.injEq, Prod.mk.injEq]
    constructor
    · rintro ⟨⟨rfl, rfl⟩, rfl⟩
      exact ⟨"u8", rfl⟩
    · rintro ⟨n, hi⟩
      obtain rfl := eq_stringLiteral_of_initial hi rfl
      obtain ⟨rfl, rfl, -⟩ := pointer_injective (Option.some.inj hi)
      exact ⟨⟨rfl, rfl⟩, rfl⟩
  namesLatestFirst := by
    unfold LatestFirst
    decide
  pointersLatestFirst := List.pairwise_singleton _ _

namespace WellFormed

variable {t : TypeTable}

theorem size_le (h : t.WellFormed) : 7 ≤ t.size := h.builtin.length_le

/-- The seven built-in handles point into the table. -/
theorem has_builtin (h : t.WellFormed) {i : TypeId} (hi : i.index < 7) : t.Has i :=
  lt_of_lt_of_le hi h.size_le

theorem get?_builtin (h : t.WellFormed) {i : TypeId} (hi : i.index < 7) :
    t.get? i = initial.get? i := by
  obtain ⟨r, hr⟩ := h.builtin
  rw [get?, get?, ← hr, List.getElem?_append_left]
  exact hi

/-- A pointer is none of the first six entries. -/
theorem le_of_shape (h : t.WellFormed) {i c : TypeId} {e : TypeEntry}
    (hi : t.get? i = some e) (he : e.shape = .pointer c) : 6 ≤ i.index := by
  by_contra hlt
  rw [h.get?_builtin (by omega)] at hi
  rw [eq_stringLiteral_of_initial hi he] at hlt
  exact hlt (le_refl 6)

theorem eq_pointer_of_shape (h : t.WellFormed) {i c : TypeId} {e : TypeEntry}
    (hi : t.get? i = some e) (he : e.shape = .pointer c) :
    ∃ m n, e = .pointer m c n ∧ c.index < i.index ∧ t.name? c = some n := by
  obtain ⟨m, c', n, rfl, hlt, hn⟩ := h.pointer i e hi (h.le_of_shape hi he)
  obtain rfl := Shape.pointer.inj he
  exact ⟨m, n, rfl, hlt, hn⟩

theorem ne_unreachable_of_pointer (h : t.WellFormed) {i c : TypeId} {m : Mutability} {n : String}
    (hi : t.get? i = some (.pointer m c n)) : i ≠ .unreachable := by
  rintro rfl
  exact absurd (h.le_of_shape hi rfl) (by decide)

theorem ne_invalid_of_pointer (h : t.WellFormed) {i c : TypeId} {m : Mutability} {n : String}
    (hi : t.get? i = some (.pointer m c n)) : i ≠ .invalid := by
  rintro rfl
  exact absurd (h.le_of_shape hi rfl) (by decide)

/-! ### Handles and types -/

theorem denotes_stringLiteral (h : t.WellFormed) : t.Denotes .stringLiteral .stringLiteral := by
  refine .pointer (n := "u8") ?_ .u8
  rw [h.get?_builtin (by decide)]
  rfl

/-- A handle stands for one type. -/
theorem denotes_unique (h : t.WellFormed) {i : TypeId} {x y : Ty} (hx : t.Denotes i x)
    (hy : t.Denotes i y) : x = y := by
  induction hx generalizing y with
  | pointer hi _ ih =>
    have hle := h.le_of_shape hi rfl
    cases hy with
    | pointer hj hc =>
      obtain ⟨rfl, rfl, -⟩ := pointer_injective (Option.some.inj (hi.symm.trans hj))
      rw [ih hc]
    | _ => simp at hle
  | _ =>
    cases hy with
    | pointer hj _ => exact absurd (h.le_of_shape hj rfl) (by decide)
    | _ => rfl

/-- A type has one handle. -/
theorem denotes_injective (h : t.WellFormed) {i j : TypeId} {x : Ty} (hi : t.Denotes i x)
    (hj : t.Denotes j x) : i = j := by
  induction hi generalizing j with
  | pointer hi _ ih =>
    cases hj with
    | pointer hj hc =>
      obtain rfl := ih hc
      exact h.interned _ _ _ _ _ _ hi hj
  | _ => cases hj; rfl

theorem denotes_iff_eq (h : t.WellFormed) {i j : TypeId} {x y : Ty} (hi : t.Denotes i x)
    (hj : t.Denotes j y) : i = j ↔ x = y := by
  constructor
  · rintro rfl
    exact h.denotes_unique hi hj
  · rintro rfl
    exact h.denotes_injective hi hj

/-! ### Names -/

theorem eq_getElem_initial (h : t.WellFormed) {i : TypeId} (hi : i.index < initial.entries.length)
    {e : TypeEntry} (he : t.get? i = some e) : e = initial.entries[i.index] := by
  rw [h.get?_builtin hi, get?, List.getElem?_eq_getElem hi] at he
  exact (Option.some.inj he).symm

/-- A type whose name does not start with a star is built in. -/
theorem index_lt_of_name? (h : t.WellFormed) {i : TypeId} {name : String}
    (hi : t.name? i = some name) (hstar : name.toList.head? ≠ some '*') :
    i.index < initial.entries.length := by
  obtain ⟨e, he, rfl⟩ := Option.map_eq_some_iff.mp hi
  by_contra hlt
  obtain ⟨m, c, n, rfl, -⟩ := h.pointer i e he (by simp [initial_entries] at hlt; omega)
  exact hstar (head?_pointer_name m c n)

/-- Only the invalid type has the name of the invalid type. -/
theorem eq_invalid_of_name? (h : t.WellFormed) {i : TypeId} (hi : t.name? i = some "(invalid)") :
    i = .invalid := by
  have hlt := h.index_lt_of_name? hi (by decide)
  obtain ⟨e, he, hname⟩ := Option.map_eq_some_iff.mp hi
  rw [h.eq_getElem_initial hlt he] at hname
  rw [TypeId.mk.injEq]
  exact eq_of_initial_name ⟨i.index, hlt⟩ hname

/-- A type whose name starts with a star is a pointer. -/
theorem pointer_of_name? (h : t.WellFormed) {i : TypeId} {name : String}
    (hi : t.name? i = some name) (hstar : name.toList.head? = some '*') :
    ∃ m c n, t.get? i = some (.pointer m c n) ∧ c.index < i.index ∧ t.name? c = some n ∧
      name = "*" ++ m.word ++ " " ++ n := by
  obtain ⟨e, he, rfl⟩ := Option.map_eq_some_iff.mp hi
  have hle : 6 ≤ i.index := by
    by_contra hlt
    have hbuiltin : i.index < initial.entries.length := by simp [initial_entries]; omega
    rw [h.eq_getElem_initial hbuiltin he] at hstar
    have hlast := eq_of_initial_star ⟨i.index, hbuiltin⟩ hstar
    exact hlt (Nat.le_of_eq hlast.symm)
  obtain ⟨m, c, n, rfl, hlt, hc⟩ := h.pointer i e he hle
  exact ⟨m, c, n, he, hlt, hc, rfl⟩

/-- No two types have one name. Pointers of one name point to types of one name, and these have smaller
handles. -/
theorem name?_injective (h : t.WellFormed) {i j : TypeId} {name : String}
    (hi : t.name? i = some name) (hj : t.name? j = some name) : i = j := by
  induction hk : i.index using Nat.strongRecOn generalizing i j name with
  | ind k ih =>
    by_cases hstar : name.toList.head? = some '*'
    · obtain ⟨m, c, n, hei, hlt, hc, rfl⟩ := h.pointer_of_name? hi hstar
      obtain ⟨m', c', n', hej, -, hc', heq⟩ := h.pointer_of_name? hj hstar
      obtain ⟨rfl, rfl⟩ := pointer_name_injective heq
      obtain rfl := ih c.index (hk ▸ hlt) hc hc' rfl
      exact h.interned _ _ _ _ _ _ hei hej
    · have hilt := h.index_lt_of_name? hi hstar
      have hjlt := h.index_lt_of_name? hj hstar
      obtain ⟨e, he, rfl⟩ := Option.map_eq_some_iff.mp hi
      obtain ⟨e', he', hname⟩ := Option.map_eq_some_iff.mp hj
      rw [h.eq_getElem_initial hilt he, h.eq_getElem_initial hjlt he'] at hname
      have hfin := initial_name_injective ⟨j.index, hjlt⟩ ⟨i.index, hilt⟩ hname
      rw [TypeId.mk.injEq]
      exact (congrArg Fin.val hfin).symm

/-! ### Lookups -/

/-- Every type but the invalid one is found by its name. -/
theorem lookup?_eq_some_iff (h : t.WellFormed) {name : String} {i : TypeId} :
    t.lookup? name = some i ↔ t.name? i = some name ∧ i ≠ .invalid := by
  rw [← h.named]
  refine ⟨mem_of_lookup, fun hi => lookup_eq_some_of_unique hi fun j hj => ?_⟩
  exact h.name?_injective ((h.named _ _).mp hj).1 ((h.named _ _).mp hi).1

/-- Every pointer is found by what it points to. -/
theorem lookup_pointers_eq_some_iff (h : t.WellFormed) {c i : TypeId} {m : Mutability} :
    t.pointers.lookup (c, m) = some i ↔ ∃ n, t.get? i = some (.pointer m c n) := by
  rw [← h.pointed]
  refine ⟨mem_of_lookup, fun hi => lookup_eq_some_of_unique hi fun j hj => ?_⟩
  obtain ⟨n, hn⟩ := (h.pointed _ _ _).mp hi
  obtain ⟨k, hk⟩ := (h.pointed _ _ _).mp hj
  exact h.interned _ _ _ _ _ _ hk hn

/-- Whatever a name is found to be is in the table. -/
theorem has_of_lookup? (h : t.WellFormed) {name : String} {i : TypeId}
    (hi : t.lookup? name = some i) : t.Has i :=
  has_iff_name?.mpr ⟨name, (h.lookup?_eq_some_iff.mp hi).1⟩

/-- The name of the invalid type leads nowhere. -/
theorem ne_invalid_of_lookup? (h : t.WellFormed) {name : String} {i : TypeId}
    (hi : t.lookup? name = some i) : i ≠ .invalid :=
  (h.lookup?_eq_some_iff.mp hi).2

/-- A name that does not start with a star is looked up among the built-in types. -/
theorem lookup?_eq (h : t.WellFormed) {name : String} (hn : name.toList.head? ≠ some '*') :
    t.lookup? name = initial.lookup? name := by
  refine Option.ext fun i => ?_
  rw [h.lookup?_eq_some_iff, wellFormed_initial.lookup?_eq_some_iff]
  refine and_congr_left fun _ => ⟨fun hi => ?_, name?_mono h.builtin⟩
  rw [name?, ← h.get?_builtin (h.index_lt_of_name? hi hn)]
  exact hi

end WellFormed

theorem lookup?_initial_eq_none {name : String} (hn : name.toList.head? ≠ some '*')
    (hu : name ∉ ["void", "bool", "i32", "u8", "unreachable"]) : initial.lookup? name = none := by
  rw [lookup?, lookup_eq_none_iff_not_mem, initial_byName]
  simp only [List.map_cons, List.map_nil, List.mem_cons, List.not_mem_nil, or_false, not_or] at hu ⊢
  refine ⟨?_, hu.2.2.2.2, hu.2.2.2.1, hu.2.2.1, hu.2.1, hu.1⟩
  rintro rfl
  exact hn (by decide)

/-- A name is found exactly when it is known, and then its handle stands for its type. -/
theorem WellFormed.lookup?_spec {t : TypeTable} (h : t.WellFormed) {name : String}
    (hn : name.toList.head? ≠ some '*') :
    match t.lookup? name with
    | some i => t.Denotes i (.ofName name) ∧ Ty.ofName name ≠ .invalid
    | none => Ty.ofName name = .invalid := by
  rw [h.lookup?_eq hn]
  by_cases hk : name ∈ ["void", "bool", "i32", "u8", "unreachable"]
  · simp only [List.mem_cons, List.not_mem_nil, or_false] at hk
    rcases hk with rfl | rfl | rfl | rfl | rfl
    · exact ⟨.void, by decide⟩
    · exact ⟨.bool, by decide⟩
    · exact ⟨.i32, by decide⟩
    · exact ⟨.u8, by decide⟩
    · exact ⟨.unreachable, by decide⟩
  · rw [lookup?_initial_eq_none hn hk]
    exact not_not.mp (mt Ty.ofName_ne_invalid_iff.mp hk)

/-- The type that never completes has one name, even among names that look like pointers. -/
theorem WellFormed.eq_unreachable_iff_of_lookup? {t : TypeTable} (h : t.WellFormed) {name : String}
    {i : TypeId} (hi : t.lookup? name = some i) :
    i = .unreachable ↔ Ty.ofName name = .unreachable := by
  constructor
  · rintro rfl
    obtain ⟨hname, -⟩ := h.lookup?_eq_some_iff.mp hi
    rw [name?, h.get?_builtin (by decide)] at hname
    rw [← Option.some.inj hname]
    rfl
  · intro hty
    obtain rfl := Ty.ofName_eq_unreachable_iff.mp hty
    have hplain : "unreachable".toList.head? ≠ some '*' := by decide
    have hs := h.lookup?_spec hplain
    rw [hi] at hs
    exact h.denotes_injective hs.1 .unreachable

/-! ### Pointers -/

theorem not_pointsToInvalid_initial : ¬ initial.PointsToInvalid := by
  rintro ⟨i, m, n, hi⟩
  obtain rfl := eq_stringLiteral_of_initial hi rfl
  obtain ⟨-, hc, -⟩ := pointer_injective (Option.some.inj hi)
  cases hc

section

variable {t : TypeTable} {m : Mutability} {c : TypeId} {n : String}

theorem prefix_addPointer : t.entries <+: (t.addPointer m c n).2.entries := List.prefix_append _ _

/-- What is in a table with one more pointer is there already or is that pointer. -/
theorem get?_addPointer_iff {i : TypeId} {e : TypeEntry} : (t.addPointer m c n).2.get? i = some e ↔
    t.get? i = some e ∨ i = ⟨t.size⟩ ∧ e = .pointer m c n := by
  obtain ⟨k⟩ := i
  rw [get?, get?, addPointer_entries, getElem?_append_singleton, TypeId.mk.injEq, eq_comm (a := e)]
  rfl

theorem name?_addPointer_iff {i : TypeId} {name : String} :
    (t.addPointer m c n).2.name? i = some name ↔
      t.name? i = some name ∨ i = ⟨t.size⟩ ∧ name = (TypeEntry.pointer m c n).name := by
  simp only [name?, Option.map_eq_some_iff, get?_addPointer_iff]
  constructor
  · rintro ⟨e, he | ⟨hi, rfl⟩, rfl⟩
    · exact .inl ⟨e, he, rfl⟩
    · exact .inr ⟨hi, rfl⟩
  · rintro (⟨e, he, rfl⟩ | ⟨hi, rfl⟩)
    · exact ⟨e, .inl he, rfl⟩
    · exact ⟨_, .inr ⟨hi, rfl⟩, rfl⟩

/-- The handle of one more entry is later than those that a map leads to. -/
theorem LatestFirst.cons {κ : Type} {l : List (κ × TypeId)} (h : LatestFirst l)
    (hl : ∀ k i, (k, i) ∈ l → t.Has i) (k : κ) : LatestFirst ((k, ⟨t.size⟩) :: l) :=
  List.pairwise_cons.mpr ⟨fun x hx => hl x.1 x.2 hx, h⟩

/-- A table stays well formed when a pointer is added that it does not hold. -/
theorem WellFormed.addPointer (h : t.WellFormed) (hn : t.name? c = some n)
    (hnew : ∀ i k, t.get? i ≠ some (.pointer m c k)) : (t.addPointer m c n).2.WellFormed where
  builtin := h.builtin.trans prefix_addPointer
  builtins := h.builtins
  pointer := by
    intro i e hi hle
    rcases get?_addPointer_iff.mp hi with hold | ⟨rfl, rfl⟩
    · obtain ⟨m', c', n', he, hlt, hc⟩ := h.pointer i e hold hle
      exact ⟨m', c', n', he, hlt, name?_mono prefix_addPointer hc⟩
    · exact ⟨m, c, n, rfl, has_iff_name?.mpr ⟨n, hn⟩, name?_mono prefix_addPointer hn⟩
  interned := by
    intro i j m' c' k k' hi hj
    rcases get?_addPointer_iff.mp hi with hold | ⟨rfl, he⟩ <;>
      rcases get?_addPointer_iff.mp hj with hold' | ⟨rfl, he'⟩
    · exact h.interned i j m' c' k k' hold hold'
    · obtain ⟨rfl, rfl, -⟩ := pointer_injective he'
      exact (hnew i k hold).elim
    · obtain ⟨rfl, rfl, -⟩ := pointer_injective he
      exact (hnew j k' hold').elim
    · rfl
  named := by
    intro name i
    -- The new handle is not that of the invalid type, whose name alone leads nowhere.
    have hlast : (⟨t.size⟩ : TypeId) ≠ .invalid := fun heq => by
      have hle := h.size_le
      rw [(TypeId.mk.inj heq : t.size = 5)] at hle
      omega
    rw [addPointer_byName, List.mem_cons, Prod.mk.injEq, h.named, name?_addPointer_iff, or_and_right,
      or_comm]
    refine or_congr_right ⟨?_, ?_⟩
    · rintro ⟨rfl, rfl⟩
      exact ⟨⟨rfl, rfl⟩, hlast⟩
    · rintro ⟨⟨rfl, rfl⟩, -⟩
      exact ⟨rfl, rfl⟩
  pointed := by
    intro c' m' i
    rw [addPointer_pointers, List.mem_cons, Prod.mk.injEq, Prod.mk.injEq, h.pointed]
    simp only [get?_addPointer_iff, exists_or]
    rw [or_comm]
    refine or_congr_right ⟨?_, ?_⟩
    · rintro ⟨⟨rfl, rfl⟩, rfl⟩
      exact ⟨n, rfl, rfl⟩
    · rintro ⟨k, rfl, he⟩
      obtain ⟨rfl, rfl, -⟩ := pointer_injective he
      exact ⟨⟨rfl, rfl⟩, rfl⟩
  namesLatestFirst :=
    h.namesLatestFirst.cons (fun k i hi => has_iff_name?.mpr ⟨k, ((h.named k i).mp hi).1⟩) _
  pointersLatestFirst := by
    refine h.pointersLatestFirst.cons (fun k i hi => ?_) _
    obtain ⟨k, hk⟩ := (h.pointed k.1 k.2 i).mp hi
    exact has_iff_get?.mpr ⟨_, hk⟩

/-- What a request for a pointer comes to: the table has the pointer already or gets it now. -/
theorem WellFormed.pointerTo?_eq_some_iff (h : t.WellFormed) {i : TypeId} {u : TypeTable} :
    t.pointerTo? m c = some (i, u) ↔
      (∃ n, t.get? i = some (.pointer m c n)) ∧ u = t ∨
      ∃ n, t.name? c = some n ∧ (∀ j k, t.get? j ≠ some (.pointer m c k)) ∧ i = ⟨t.size⟩ ∧
        u = (t.addPointer m c n).2 := by
  rw [pointerTo?]
  cases hf : t.pointers.lookup (c, m) with
  | some j =>
    obtain ⟨k, hk⟩ := h.lookup_pointers_eq_some_iff.mp hf
    rw [Option.some.injEq, Prod.mk.injEq, ← h.lookup_pointers_eq_some_iff, hf, Option.some.injEq,
      eq_comm (a := t)]
    refine ⟨.inl, fun hnew => hnew.resolve_right ?_⟩
    rintro ⟨n, -, hnot, -⟩
    exact hnot j k hk
  | none =>
    have hnot : ∀ j k, t.get? j ≠ some (.pointer m c k) := by
      intro j k hk
      rw [h.lookup_pointers_eq_some_iff.mpr ⟨k, hk⟩] at hf
      cases hf
    rw [Option.map_eq_some_iff]
    constructor
    · rintro ⟨n, hn, heq⟩
      exact .inr ⟨n, hn, hnot, (congrArg Prod.fst heq).symm, (congrArg Prod.snd heq).symm⟩
    · rintro (⟨⟨k, hk⟩, -⟩ | ⟨n, hn, -, rfl, rfl⟩)
      · exact absurd hk (hnot i k)
      · exact ⟨n, hn, rfl⟩

/-- Every entry can be pointed to: the pointer is found, or added at the end. -/
theorem WellFormed.pointerTo?_spec (h : t.WellFormed) (hc : t.Has c) (m : Mutability) :
    ∃ i u, t.pointerTo? m c = some (i, u) ∧ u.WellFormed ∧
      t.entries <+: u.entries ∧ (u.PointsToInvalid → t.PointsToInvalid ∨ c = .invalid) ∧
      ∃ n, u.get? i = some (.pointer m c n) := by
  by_cases hold : ∃ i n, t.get? i = some (.pointer m c n)
  · obtain ⟨i, hi⟩ := hold
    exact ⟨i, t, h.pointerTo?_eq_some_iff.mpr (.inl ⟨hi, rfl⟩), h, List.prefix_refl _, .inl, hi⟩
  · obtain ⟨n, hn⟩ := has_iff_name?.mp hc
    have hnew : ∀ i k, t.get? i ≠ some (.pointer m c k) := fun i k hi => hold ⟨i, k, hi⟩
    refine ⟨⟨t.size⟩, (t.addPointer m c n).2,
      h.pointerTo?_eq_some_iff.mpr (.inr ⟨n, hn, hnew, rfl, rfl⟩), h.addPointer hn hnew,
      prefix_addPointer, ?_, n, get?_addPointer_iff.mpr (.inr ⟨rfl, rfl⟩)⟩
    rintro ⟨i, m', n', hi⟩
    rcases get?_addPointer_iff.mp hi with hthere | ⟨-, heq⟩
    · exact .inl ⟨i, m', n', hthere⟩
    · exact .inr (pointer_injective heq).2.1.symm

end

end TypeTable

end Sema
