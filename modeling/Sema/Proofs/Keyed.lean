import Mathlib.Data.List.Nodup
import Mathlib.Data.List.Perm.Basic

/-!
Lists of values by place and by key: what a place or a key leads to, and what changes when a value
is added, moved or left out.
-/

namespace Sema

/-! ### Places -/

/-- What stands in a list with one more value at its end. -/
theorem getElem?_append_singleton {α : Type} {l : List α} {x y : α} {i : Nat} :
    (l ++ [x])[i]? = some y ↔ l[i]? = some y ∨ i = l.length ∧ x = y := by
  rcases Nat.lt_trichotomy i l.length with hi | rfl | hi
  · rw [List.getElem?_append_left hi]
    exact ⟨.inl, fun h => h.resolve_right fun hlast => absurd hlast.1 (Nat.ne_of_lt hi)⟩
  · simp
  · have hlong : (l ++ [x])[i]? = none := List.getElem?_eq_none (by simp; omega)
    have hshort : l[i]? = none := List.getElem?_eq_none (by omega)
    simp [hlong, hshort]
    omega

section

variable {κ α : Type} {l m : List (κ × α)} {k name : κ} {v : α}

/-! ### Keys -/

theorem nodup_middle_iff : ((l ++ (name, v) :: m).map (·.1)).Nodup ↔
    name ∉ (l ++ m).map (·.1) ∧ ((l ++ m).map (·.1)).Nodup := by
  rw [List.map_append, List.map_cons, List.nodup_middle, List.nodup_cons, List.map_append]

/-- Keys are distinct when one of them is met once at most and the others are distinct. -/
theorem nodup_keys_iff [DecidableEq κ] (key : κ) (l : List (κ × α)) : (l.map (·.1)).Nodup ↔
    ((l.filter (·.1 = key)).map (·.1)).Nodup ∧ ((l.filter (·.1 ≠ key)).map (·.1)).Nodup := by
  have hperm := (List.filter_append_perm (fun p : κ × α => decide (p.1 = key)) l).map (·.1)
  have hnot : l.filter (fun p => !decide (p.1 = key)) = l.filter (·.1 ≠ key) :=
    List.filter_congr fun p _ => (decide_not ..).symm
  rw [← hperm.nodup_iff, hnot, List.map_append, List.nodup_append']
  refine ⟨fun h => ⟨h.1, h.2.1⟩, fun h => ⟨h.1, h.2, ?_⟩⟩
  rw [List.disjoint_left]
  intro k hk hk'
  obtain ⟨p, hp, rfl⟩ := List.mem_map.mp hk
  obtain ⟨q, hq, heq⟩ := List.mem_map.mp hk'
  have hp := of_decide_eq_true (List.mem_filter.mp hp).2
  have hq := of_decide_eq_true (List.mem_filter.mp hq).2
  exact hq (heq.trans hp)

/-! ### What a key leads to -/

variable [BEq κ] [LawfulBEq κ]

theorem lookup_eq_none_iff_not_mem : l.lookup k = none ↔ k ∉ l.map (·.1) := by
  simp only [List.lookup_eq_none_iff, bne_iff_ne, ne_eq, List.mem_map, not_exists, not_and]
  exact forall₂_congr fun p _ => not_congr eq_comm

theorem mem_of_lookup (h : l.lookup k = some v) : (k, v) ∈ l := by
  obtain ⟨before, after, rfl, -⟩ := List.lookup_eq_some_iff.mp h
  exact List.mem_append_right _ (List.mem_cons_self ..)

/-- A key that has one value leads to it. -/
theorem lookup_eq_some_of_unique (h : (k, v) ∈ l) (hv : ∀ w, (k, w) ∈ l → w = v) :
    l.lookup k = some v := by
  cases hl : l.lookup k with
  | none => exact absurd (List.mem_map_of_mem h) (lookup_eq_none_iff_not_mem.mp hl)
  | some w => rw [hv w (mem_of_lookup hl)]

theorem lookup_eq_some_iff_mem (hl : (l.map (·.1)).Nodup) : l.lookup k = some v ↔ (k, v) ∈ l := by
  refine ⟨mem_of_lookup, fun h => lookup_eq_some_of_unique h fun w hw => ?_⟩
  exact congrArg Prod.snd (List.inj_on_of_nodup_map hl hw h rfl)

theorem lookup_perm (h : l.Perm m) (hl : (l.map (·.1)).Nodup) : l.lookup k = m.lookup k := by
  refine Option.ext fun v => ?_
  rw [lookup_eq_some_iff_mem hl, lookup_eq_some_iff_mem ((h.map (·.1)).nodup_iff.mp hl), h.mem_iff]

/-! ### Changes -/

variable [DecidableEq κ]

theorem lookup_cons_eq_ite (p : κ × α) (l : List (κ × α)) (k : κ) :
    (p :: l).lookup k = if k = p.1 then some p.2 else l.lookup k := by
  rw [List.lookup_cons]
  by_cases hk : k = p.1
  · rw [if_pos hk, beq_iff_eq.mpr hk]
  · rw [if_neg hk, beq_eq_false_iff_ne.mpr hk]

theorem lookup_middle (h : name ∉ (l ++ m).map (·.1)) :
    (l ++ (name, v) :: m).lookup k = if k = name then some v else (l ++ m).lookup k := by
  induction l with
  | nil => exact lookup_cons_eq_ite (name, v) m k
  | cons p l ih =>
    rw [List.cons_append, List.map_cons, List.mem_cons, not_or] at h
    rw [List.cons_append, List.cons_append, lookup_cons_eq_ite, lookup_cons_eq_ite, ih h.2]
    by_cases hk : k = p.1
    · rw [if_pos hk, if_pos hk, if_neg fun heq => h.1 (heq.symm.trans hk)]
    · rw [if_neg hk, if_neg hk]

theorem lookup_filter (p : κ → Bool) (l : List (κ × α)) (k : κ) :
    (l.filter (p ·.1)).lookup k = if p k then l.lookup k else none := by
  induction l with
  | nil => split <;> rfl
  | cons x l ih =>
    rw [List.filter_cons, lookup_cons_eq_ite]
    by_cases hk : k = x.1
    · subst hk
      cases hp : p x.1 <;> simp [hp, ih, lookup_cons_eq_ite]
    · rw [if_neg hk]
      cases hp : p x.1 <;> simp [ih, hk, lookup_cons_eq_ite]

theorem lookup_zip : ∀ {names : List κ} {items : List α} {i : Nat}, names.Nodup →
    names[i]? = some k → (names.zip items).lookup k = items[i]?
  | [], _, _, _, h => by cases h
  | _ :: _, [], _, _, _ => rfl
  | name :: names, x :: items, 0, _, h => by
    obtain rfl := Option.some.inj h
    rw [List.zip_cons_cons, lookup_cons_eq_ite, if_pos rfl]
    rfl
  | name :: names, x :: items, i + 1, hn, h => by
    obtain ⟨hnot, hn⟩ := List.nodup_cons.mp hn
    have hne : k ≠ name := fun heq => hnot (heq ▸ List.mem_of_getElem? h)
    rw [List.zip_cons_cons, lookup_cons_eq_ite, if_neg hne]
    exact lookup_zip hn h

/-- Where keys are distinct, one that is found is met once. -/
theorem filter_eq_singleton_of_lookup (hl : (l.map (·.1)).Nodup) (h : l.lookup k = some v) :
    l.filter (·.1 = k) = [(k, v)] := by
  obtain ⟨before, after, rfl, -⟩ := List.lookup_eq_some_iff.mp h
  have hnot := (nodup_middle_iff.mp hl).1
  have hne : ∀ p ∈ before ++ after, ¬ p.1 = k := fun p hp heq => hnot (heq ▸ List.mem_map_of_mem hp)
  rw [List.filter_append, List.filter_cons_of_pos (by simp),
    List.filter_eq_nil_iff.mpr fun p hp => by simp [hne p (List.mem_append_left _ hp)],
    List.filter_eq_nil_iff.mpr fun p hp => by simp [hne p (List.mem_append_right _ hp)]]
  rfl

end

end Sema
