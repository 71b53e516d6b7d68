import Mathlib.Data.List.Forall2
import Mathlib.Data.List.Nodup
import Sema.Proofs.TypeTable

/-!
Requests for pointers. A table that is asked for pointers gives one handle for each mutability and
child, finds every type by its name, and grows by one entry for each pointer that was not asked for
before. Its names stay distinct although only pointers are compared when they are added, and its
entries, the map of names and the map of pointers stay in step, one request after the other.
-/

namespace Sema

namespace TypeTable

variable {t u : TypeTable}

theorem WellFormed.nodup_names (h : t.WellFormed) : (t.entries.map (·.name)).Nodup := by
  rw [List.nodup_iff_injective_getElem]
  rintro ⟨i, hi⟩ ⟨j, hj⟩ heq
  simp only [List.length_map, List.getElem_map] at hi hj heq
  have hname : ∀ {k : Nat} (hk : k < t.entries.length), t.name? ⟨k⟩ = some t.entries[k].name := by
    intro k hk
    rw [name?, get?, List.getElem?_eq_getElem hk, Option.map_some]
  have hsame := h.name?_injective (hname hi) (heq ▸ hname hj)
  exact Fin.ext (TypeId.mk.inj hsame)

/-! ### Requests -/

/-- A pointer that a table is asked for. -/
structure Request where
  mutability : Mutability
  child : TypeId
deriving DecidableEq

/-- The pointer that every table has. -/
abbrev Request.stringLiteral : Request := ⟨.constant, .u8⟩

/-- Answers requests one after the other. There is no answer to a request for a pointer to a handle
outside the table. -/
def answer? (t : TypeTable) : List Request → Option (List TypeId × TypeTable)
  | [] => some ([], t)
  | q :: rest => do
      let (i, t) ← t.pointerTo? q.mutability q.child
      let (is, t) ← t.answer? rest
      return (i :: is, t)

/-- Whether a handle is that of the pointer that is asked for. -/
def Answers (t : TypeTable) (q : Request) (i : TypeId) : Prop :=
  ∃ n, t.name? q.child = some n ∧ t.get? i = some (.pointer q.mutability q.child n)

/-- Whether a table holds the pointer that is asked for. -/
def Holds (t : TypeTable) (q : Request) : Prop := ∃ i, t.Answers q i

theorem Answers.mono (h : t.entries <+: u.entries) {q : Request} {i : TypeId} (hi : t.Answers q i) :
    u.Answers q i := by
  obtain ⟨n, hn, he⟩ := hi
  exact ⟨n, name?_mono h hn, get?_mono h he⟩

theorem Answers.request_unique {q q' : Request} {i : TypeId} (h : t.Answers q i)
    (h' : t.Answers q' i) : q = q' := by
  obtain ⟨n, -, he⟩ := h
  obtain ⟨n', -, he'⟩ := h'
  obtain ⟨hm, hc, -⟩ := pointer_injective (Option.some.inj (he.symm.trans he'))
  rw [Request.mk.injEq]
  exact ⟨hm, hc⟩

theorem WellFormed.answer_unique (h : t.WellFormed) {q : Request} {i j : TypeId}
    (hi : t.Answers q i) (hj : t.Answers q j) : i = j := by
  obtain ⟨n, -, he⟩ := hi
  obtain ⟨n', -, he'⟩ := hj
  exact h.interned _ _ _ _ _ _ he he'

/-- A pointer of a table is the answer to the request for it. -/
theorem WellFormed.answers_of_get? (h : t.WellFormed) {i : TypeId} {q : Request} {n : String}
    (hi : t.get? i = some (.pointer q.mutability q.child n)) : t.Answers q i := by
  obtain ⟨m, k, heq, -, hk⟩ := h.eq_pointer_of_shape hi rfl
  obtain ⟨-, -, rfl⟩ := pointer_injective heq
  exact ⟨n, hk, hi⟩

/-- The map of pointers leads to the answer of a request, where the table has one. -/
theorem WellFormed.lookup_pointers_iff (h : t.WellFormed) {q : Request} {i : TypeId} :
    t.pointers.lookup (q.child, q.mutability) = some i ↔ t.Answers q i := by
  rw [h.lookup_pointers_eq_some_iff]
  constructor
  · rintro ⟨n, hi⟩
    exact h.answers_of_get? hi
  · rintro ⟨n, -, hi⟩
    exact ⟨n, hi⟩

/-- What one request does. -/
structure Serves (t : TypeTable) (q : Request) (i : TypeId) (u : TypeTable) : Prop where
  /-- The maps are in step with the entries again. -/
  wellFormed : u.WellFormed
  within : t.entries <+: u.entries
  builtins : u.builtins = t.builtins
  answers : u.Answers q i
  /-- Nothing but the pointer is added. -/
  holds : ∀ q', u.Holds q' ↔ t.Holds q' ∨ q' = q
  kept : t.Holds q → u = t
  added : ¬ t.Holds q → u.size = t.size + 1

theorem WellFormed.serves_known (h : t.WellFormed) {q : Request} {i : TypeId} (hi : t.Answers q i) :
    t.Serves q i t where
  wellFormed := h
  within := List.prefix_refl _
  builtins := rfl
  answers := hi
  holds _ := ⟨.inl, fun hq' => hq'.elim id fun heq => heq ▸ ⟨i, hi⟩⟩
  kept _ := rfl
  added hnot := absurd ⟨i, hi⟩ hnot

theorem WellFormed.serves_new (h : t.WellFormed) {q : Request} {n : String}
    (hn : t.name? q.child = some n)
    (hnew : ∀ i k, t.get? i ≠ some (.pointer q.mutability q.child k)) :
    t.Serves q ⟨t.size⟩ (t.addPointer q.mutability q.child n).2 where
  wellFormed := h.addPointer hn hnew
  within := prefix_addPointer
  builtins := addPointer_builtins ..
  answers := ⟨n, name?_mono prefix_addPointer hn, get?_addPointer_iff.mpr (.inr ⟨rfl, rfl⟩)⟩
  holds q' := by
    constructor
    · rintro ⟨j, k, -, hj⟩
      rcases get?_addPointer_iff.mp hj with hold | ⟨-, heq⟩
      · exact .inl ⟨j, h.answers_of_get? hold⟩
      · obtain ⟨hm, hc, -⟩ := pointer_injective heq
        exact .inr (Request.mk.injEq .. ▸ ⟨hm, hc⟩)
    · rintro (⟨j, hj⟩ | rfl)
      · exact ⟨j, hj.mono prefix_addPointer⟩
      · exact ⟨_, n, name?_mono prefix_addPointer hn, get?_addPointer_iff.mpr (.inr ⟨rfl, rfl⟩)⟩
  kept := by
    rintro ⟨j, k, -, hj⟩
    exact absurd hj (hnew j k)
  added _ := addPointer_size ..

theorem WellFormed.serves (h : t.WellFormed) {q : Request} {i : TypeId}
    (hq : t.pointerTo? q.mutability q.child = some (i, u)) : t.Serves q i u := by
  rcases h.pointerTo?_eq_some_iff.mp hq with ⟨⟨n, hi⟩, rfl⟩ | ⟨n, hn, hnew, rfl, rfl⟩
  · exact h.serves_known (h.answers_of_get? hi)
  · exact h.serves_new hn hnew

/-- A request is served exactly if it is for a pointer to a handle of the table. -/
theorem WellFormed.pointerTo?_isSome_iff (h : t.WellFormed) (q : Request) :
    (∃ i u, t.pointerTo? q.mutability q.child = some (i, u)) ↔ t.Has q.child := by
  constructor
  · rintro ⟨i, u, hq⟩
    rcases h.pointerTo?_eq_some_iff.mp hq with ⟨⟨n, hi⟩, -⟩ | ⟨n, hn, -⟩
    · obtain ⟨k, hk, -⟩ := h.answers_of_get? hi
      exact has_iff_name?.mpr ⟨k, hk⟩
    · exact has_iff_name?.mpr ⟨n, hn⟩
  · intro hc
    obtain ⟨i, u, hq, -⟩ := h.pointerTo?_spec hc q.mutability
    exact ⟨i, u, hq⟩

/-! ### Runs of requests -/

/-- What a run of requests does. -/
structure Served (t : TypeTable) (qs : List Request) (is : List TypeId) (u : TypeTable) :
    Prop where
  /-- The maps stay in step with the entries. -/
  wellFormed : u.WellFormed
  within : t.entries <+: u.entries
  builtins : u.builtins = t.builtins
  answers : qs.Forall₂ u.Answers is
  holds : ∀ q, u.Holds q ↔ t.Holds q ∨ q ∈ qs

theorem WellFormed.served : ∀ {qs : List Request} {t u : TypeTable} {is : List TypeId},
    t.WellFormed → t.answer? qs = some (is, u) → t.Served qs is u
  | [], t, u, is, h, hqs => by
    rw [answer?, Option.some.injEq, Prod.mk.injEq] at hqs
    obtain ⟨rfl, rfl⟩ := hqs
    exact ⟨h, List.prefix_refl _, rfl, .nil, by simp⟩
  | q :: qs, t, w, is, h, hqs => by
    simp only [answer?, Option.bind_eq_bind, Option.bind_eq_some_iff, Option.pure_def,
      Option.some.injEq, Prod.exists, Prod.mk.injEq] at hqs
    obtain ⟨i, u, hq, is', _, hrest, rfl, rfl⟩ := hqs
    have h1 := h.serves hq
    have h2 := h1.wellFormed.served hrest
    refine ⟨h2.wellFormed, h1.within.trans h2.within, h2.builtins.trans h1.builtins,
      .cons (h1.answers.mono h2.within) h2.answers, fun q' => ?_⟩
    rw [h2.holds, h1.holds, List.mem_cons, or_assoc]

theorem answer?_append : ∀ (qs rest : List Request) (t : TypeTable), t.answer? (qs ++ rest) =
    (t.answer? qs).bind fun x => (x.2.answer? rest).map fun y => (x.1 ++ y.1, y.2)
  | [], rest, t => by cases h : t.answer? rest <;> simp [answer?, h]
  | q :: qs, rest, t => by
    cases hq : t.pointerTo? q.mutability q.child with
    | none => simp [answer?, hq]
    | some x =>
      simp only [List.cons_append, answer?, hq, Option.bind_eq_bind, Option.bind_some,
        answer?_append qs rest, Option.pure_def, Option.bind_assoc]
      cases h : x.2.answer? qs with
      | none => rfl
      | some y => cases h' : y.2.answer? rest <;> simp [h']

/-- The built-in types hold one pointer. -/
theorem holds_initial {q : Request} : initial.Holds q ↔ q = .stringLiteral := by
  have hlast : initial.Answers .stringLiteral .stringLiteral := ⟨"u8", rfl, rfl⟩
  constructor
  · rintro ⟨i, n, hn, he⟩
    obtain rfl := eq_stringLiteral_of_initial he rfl
    exact Answers.request_unique ⟨n, hn, he⟩ hlast
  · rintro rfl
    exact ⟨_, hlast⟩

/-- What is wanted of a table that answered the requests `qs` with the handles `is`. -/
structure Interned (t : TypeTable) (qs : List Request) (is : List TypeId) : Prop where
  names : (t.entries.map (·.name)).Nodup
  /-- The map of names is in step with the entries. -/
  lookup : ∀ name i, t.lookup? name = some i ↔ t.name? i = some name ∧ i ≠ t.builtins.invalid
  /-- So is the map of pointers. -/
  pointers : ∀ c m i, t.pointers.lookup (c, m) = some i ↔
    ∃ n, t.name? c = some n ∧ t.get? i = some ⟨"*" ++ m.word ++ " " ++ n, .pointer c⟩
  builtins : t.builtins = initial.builtins
  length : is.length = qs.length
  /-- Requests have one answer exactly if they are the same, whenever they were made. -/
  same : ∀ x ∈ qs.zip is, ∀ y ∈ qs.zip is, x.2 = y.2 ↔ x.1 = y.1
  answered : ∀ x ∈ qs.zip is, ∃ n, t.name? x.1.child = some n ∧
    t.get? x.2 = some ⟨"*" ++ x.1.mutability.word ++ " " ++ n, .pointer x.1.child⟩
  pointee : ∀ i e c, t.get? i = some e → e.shape = .pointer c → c.index < i.index
  /-- The tables before were the beginning of this one, and their answers stand. -/
  earlier : ∀ before after, qs = before ++ after → ∃ is' u,
    initial.answer? before = some (is', u) ∧ is' <+: is ∧ u.entries <+: t.entries ∧
      u.builtins = t.builtins
  served : ∀ q : Request, (∃ i u, t.pointerTo? q.mutability q.child = some (i, u)) ↔ t.Has q.child
  /-- One more request adds an entry exactly if it is the first of its kind. -/
  grows : ∀ (q : Request) i u, t.pointerTo? q.mutability q.child = some (i, u) →
    t.entries <+: u.entries ∧ u.builtins = t.builtins ∧
      u.size = t.size + if q = .stringLiteral ∨ q ∈ qs then 0 else 1
  literal : t.pointerTo? .constant t.builtins.u8 = some (t.builtins.stringLiteral, t)

/-- Whatever pointers to its handles the table of the built-in types is asked for, its entries, its map
of names and its map of pointers stay in step. -/
theorem interned_of_requests {qs : List Request} {is : List TypeId} {t : TypeTable}
    (h : initial.answer? qs = some (is, t)) : t.Interned qs is := by
  have hrun := wellFormed_initial.served h
  have hwf := hrun.wellFormed
  have hholds : ∀ q, t.Holds q ↔ q = .stringLiteral ∨ q ∈ qs := fun q => by
    rw [hrun.holds, holds_initial]
  obtain ⟨hlength, hzip⟩ := List.forall₂_iff_zip.mp hrun.answers
  refine ⟨hwf.nodup_names, fun name i => ?_, fun c m i => hwf.lookup_pointers_iff (q := ⟨m, c⟩),
    hwf.builtins, hlength.symm, ?_, ?_, ?_, ?_, hwf.pointerTo?_isSome_iff, ?_, ?_⟩
  · rw [hwf.builtins]
    exact hwf.lookup?_eq_some_iff
  · rintro ⟨q, i⟩ hx ⟨q', i'⟩ hy
    have hi := hzip hx
    have hi' := hzip hy
    constructor
    · rintro rfl
      exact hi.request_unique hi'
    · rintro rfl
      exact hwf.answer_unique hi hi'
  · rintro ⟨q, i⟩ hx
    exact hzip hx
  · intro i e c hi he
    obtain ⟨m, n, -, hlt, -⟩ := hwf.eq_pointer_of_shape hi he
    exact hlt
  · rintro before after rfl
    rw [answer?_append, Option.bind_eq_some_iff] at h
    obtain ⟨⟨is', u⟩, hbefore, hafter⟩ := h
    obtain ⟨⟨js, w⟩, hrest, heq⟩ := Option.map_eq_some_iff.mp hafter
    obtain ⟨rfl, rfl⟩ := Prod.mk.inj heq
    have hlater := (wellFormed_initial.served hbefore).wellFormed.served hrest
    exact ⟨is', u, hbefore, List.prefix_append _ _, hlater.within, hlater.builtins.symm⟩
  · intro q i u hq
    have hserves := hwf.serves hq
    refine ⟨hserves.within, hserves.builtins, ?_⟩
    split
    · next hold => rw [hserves.kept ((hholds q).mpr hold), Nat.add_zero]
    · next hnew => exact hserves.added (mt (hholds q).mp hnew)
  · have hlit : t.pointers.lookup (.u8, .constant) = some .stringLiteral := by
      rw [hwf.lookup_pointers_iff (q := .stringLiteral)]
      exact Answers.mono hwf.builtin ⟨"u8", rfl, rfl⟩
    rw [hwf.builtins, initial_builtins, pointerTo?, hlit]

/-- Two pointers to `i32`, one of them twice, and a pointer to a pointer. -/
theorem interned_nested : ∃ t,
    initial.answer? [⟨.constant, .i32⟩, ⟨.mutable, .i32⟩, ⟨.constant, .i32⟩, ⟨.mutable, ⟨7⟩⟩] =
      some ([⟨7⟩, ⟨8⟩, ⟨7⟩, ⟨9⟩], t) ∧ t.name? ⟨9⟩ = some "*mut *const i32" ∧
    t.lookup? "*mut *const i32" = some ⟨9⟩ ∧ t.pointers.lookup (⟨7⟩, .mutable) = some ⟨9⟩ ∧
    t.Interned [⟨.constant, .i32⟩, ⟨.mutable, .i32⟩, ⟨.constant, .i32⟩, ⟨.mutable, ⟨7⟩⟩]
      [⟨7⟩, ⟨8⟩, ⟨7⟩, ⟨9⟩] :=
  ⟨_, rfl, rfl, rfl, rfl, interned_of_requests rfl⟩

end TypeTable

end Sema
