/-!
Cutting texts at a separator. Cutting loses nothing: joining the parts gives the text back.
-/

namespace Sema.Text

/-- Cuts a text at each `sep`; `n` separators give `n + 1` parts. -/
def split (sep : Char) : List Char → List (List Char)
  | [] => [[]]
  | c :: r =>
    if c = sep then [] :: split sep r
    else
      match split sep r with
      | [] => [[c]]
      | p :: ps => (c :: p) :: ps

/-- Puts parts together with `sep` between them. -/
def join (sep : Char) : List (List Char) → List Char
  | [] => []
  | [p] => p
  | p :: q :: ps => p ++ sep :: join sep (q :: ps)

theorem split_ne_nil (sep : Char) (s : List Char) : split sep s ≠ [] := by
  cases s with
  | nil => simp [split]
  | cons c r =>
    unfold split
    split
    · simp
    · split <;> simp

theorem join_split (sep : Char) (s : List Char) : join sep (split sep s) = s := by
  induction s with
  | nil => rfl
  | cons c r ih =>
    unfold split
    cases h : split sep r with
    | nil => exact absurd h (split_ne_nil sep r)
    | cons p ps =>
      rw [h] at ih
      split
      · next hc => simp [join, ih, hc]
      · cases ps with
        | nil => simp_all [join]
        | cons q qs => simp_all [join]

/-- A text without the separator is one part. -/
theorem split_of_not_mem {sep : Char} {s : List Char} (h : sep ∉ s) : split sep s = [s] := by
  induction s with
  | nil => rfl
  | cons c r ih =>
    simp only [List.mem_cons, not_or] at h
    rw [split, if_neg (Ne.symm h.1), ih h.2]

/-- The first part goes up to the first separator. -/
theorem split_append_cons {sep : Char} {p : List Char} (h : sep ∉ p) (s : List Char) :
    split sep (p ++ sep :: s) = p :: split sep s := by
  induction p with
  | nil => simp [split]
  | cons c r ih =>
    simp only [List.mem_cons, not_or] at h
    rw [List.cons_append, split, if_neg (Ne.symm h.1), ih h.2]

/-! ### Lengths -/

/-- The length that parts have together, each with a separator. -/
def width : List (List Char) → Nat
  | [] => 0
  | p :: ps => p.length + 1 + width ps

@[simp] theorem width_nil : width [] = 0 := rfl

@[simp] theorem width_cons (p : List Char) (ps : List (List Char)) :
    width (p :: ps) = p.length + 1 + width ps := rfl

@[simp] theorem width_append (ps qs : List (List Char)) :
    width (ps ++ qs) = width ps + width qs := by
  induction ps with
  | nil => simp
  | cons p ps ih => simp [ih, Nat.add_assoc]

@[simp] theorem width_reverse (ps : List (List Char)) : width ps.reverse = width ps := by
  induction ps with
  | nil => rfl
  | cons p ps ih => simp [ih, Nat.add_comm]

theorem length_join (sep : Char) : ∀ ps : List (List Char), ps ≠ [] →
    (join sep ps).length + 1 = width ps
  | [], h => absurd rfl h
  | [p], _ => by simp [join]
  | p :: q :: ps, _ => by
    have := length_join sep (q :: ps) (by simp)
    simp [join] at this ⊢
    omega

theorem width_split (sep : Char) (s : List Char) : width (split sep s) = s.length + 1 := by
  have := length_join sep _ (split_ne_nil sep s)
  rw [join_split] at this
  exact this.symm

theorem width_dropWhile (p : List Char → Bool) (ps : List (List Char)) :
    width (ps.dropWhile p) ≤ width ps := by
  induction ps with
  | nil => simp
  | cons q qs ih =>
    rw [List.dropWhile_cons]
    split
    · simp; omega
    · exact Nat.le_refl _

end Sema.Text
