import Mathlib.Data.List.Pairwise
import Mathlib.Data.List.Sort
import Mathlib.Data.String.Basic
import Sema.Text.Order

/-!
Texts that are put in their places one after the other: the result is sorted, holds each of them once,
and so depends on which texts there are and on nothing else.
-/

namespace Sema.Text

theorem le_iff : ∀ {a b : List Char}, le a b ↔ ¬ b < a
  | [], b => by simp [le]
  | a :: r, [] => by simp [le]
  | a :: r, b :: s => by
    rw [le, List.cons_lt_cons_iff]
    split
    · next h => simp [h, le_iff]
    · next h =>
      have hlt : Nat.blt a.toNat b.toNat ↔ a < b := by
        rw [Nat.blt_eq]
        exact Iff.rfl
      simp only [hlt, Ne.symm h, false_and, or_false, not_lt]
      exact ⟨le_of_lt, fun hle => lt_of_le_of_ne hle h⟩

theorem le_toList_iff {x y : String} : le x.toList y.toList ↔ x ≤ y := by
  rw [le_iff, ← String.lt_iff_toList_lt, not_lt]

/-- Puts texts in their places among sorted ones, one after the other. -/
def insertAll (xs l : List String) : List String := xs.foldl (fun l x => insertSorted x l) l

theorem insertAll_append (xs ys l : List String) :
    insertAll (xs ++ ys) l = insertAll ys (insertAll xs l) := List.foldl_append

theorem mem_insertAll {xs : List String} {y : String} {l : List String} :
    y ∈ insertAll xs l ↔ y ∈ xs ∨ y ∈ l := by
  induction xs generalizing l with
  | nil => simp [insertAll]
  | cons x xs ih =>
    change y ∈ insertAll xs (insertSorted x l) ↔ _
    rw [ih, mem_insertSorted, List.mem_cons]
    tauto

theorem sorted_insertSorted (x : String) {l : List String} (h : l.Pairwise (· < ·)) :
    (insertSorted x l).Pairwise (· < ·) := by
  induction l with
  | nil => simp [insertSorted]
  | cons y r ih =>
    obtain ⟨hy, hr⟩ := List.pairwise_cons.mp h
    unfold insertSorted
    split
    · exact h
    · next hne =>
      split
      · next hle =>
        have hxy : x < y := lt_of_le_of_ne (le_toList_iff.mp hle) hne
        refine List.pairwise_cons.mpr ⟨fun z hz => ?_, h⟩
        rcases List.mem_cons.mp hz with rfl | hz
        · exact hxy
        · exact hxy.trans (hy z hz)
      · next hle =>
        have hyx : y < x := by
          rw [le_toList_iff] at hle
          exact lt_of_not_ge hle
        refine List.pairwise_cons.mpr ⟨fun z hz => ?_, ih hr⟩
        rcases mem_insertSorted.mp hz with rfl | hz
        · exact hyx
        · exact hy z hz

theorem sorted_insertAll (xs : List String) {l : List String} (h : l.Pairwise (· < ·)) :
    (insertAll xs l).Pairwise (· < ·) := by
  induction xs generalizing l with
  | nil => exact h
  | cons x xs ih => exact ih (sorted_insertSorted x h)

/-- The order in which texts are put in their places does not matter, nor how often. -/
theorem insertAll_congr {xs ys : List String} (h : ∀ x, x ∈ xs ↔ x ∈ ys) :
    insertAll xs [] = insertAll ys [] := by
  refine List.Pairwise.eq_of_mem_iff (sorted_insertAll xs .nil) (sorted_insertAll ys .nil) fun x => ?_
  rw [mem_insertAll, mem_insertAll, h]

end Sema.Text
