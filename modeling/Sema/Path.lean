import Sema.Text.Split

/-!
Paths as texts. A path is cut at its slashes; empty parts and parts that are a single dot do not
count, except for a dot at the very start. Nothing is looked up: two dots are a part like any other.
-/

namespace Sema

/-- A slash-separated path, as it was given. -/
abbrev Path := List Char

namespace Path

/-- Whether a part of a path does not count. -/
def isIdle (part : List Char) : Bool := part = [] || part = ['.']

/-- What a path begins with that is no part of it: a slash or a dot, or nothing. The dot stands
alone or in front of a slash. -/
def splitStart : Path → List Char × List Char
  | '/' :: r => (['/'], r)
  | ['.'] => (['.'], [])
  | '.' :: '/' :: r => (['.'], '/' :: r)
  | p => ([], p)

/-- Leaves out the parts at the end that do not count; the list has the last part first. -/
def dropIdle (parts : List (List Char)) : List (List Char) := parts.dropWhile isIdle

/-- The path without its last part, if it has one. The dot at the start counts as a part once
nothing else is left; the root has no parent. -/
def parent? (p : Path) : Option Path :=
  let (start, body) := splitStart p
  match dropIdle (Text.split '/' body).reverse with
  | _ :: rest => some (start ++ Text.join '/' (dropIdle rest).reverse)
  | [] => if start = ['.'] then some [] else none

/-- The path of an entry of a directory. -/
def child (dir : Path) (name : List Char) : Path :=
  if dir = [] ∨ dir.getLast? = some '/' then dir ++ name else dir ++ '/' :: name

/-! ### Going up ends -/

theorem length_splitStart (p : Path) :
    (splitStart p).1.length + (splitStart p).2.length = p.length := by
  unfold splitStart
  split <;> simp <;> omega

theorem isIdle_of_dropIdle_eq_cons {parts rest : List (List Char)} {last : List Char}
    (h : dropIdle parts = last :: rest) : isIdle last = false := by
  induction parts with
  | nil => simp [dropIdle] at h
  | cons p ps ih =>
    simp only [dropIdle, List.dropWhile_cons] at h ih
    split at h
    · exact ih h
    · cases h; simpa using ‹¬ isIdle _ = true›

/-- A parent is shorter, so going up comes to an end. -/
theorem length_parent? {p q : Path} (h : p.parent? = some q) : q.length < p.length := by
  have hp := length_splitStart p
  unfold parent? at h
  generalize hs : splitStart p = s at h hp
  obtain ⟨start, body⟩ := s
  simp only at h hp
  split at h
  · next last rest hd =>
    have hi := isIdle_of_dropIdle_eq_cons hd
    have hl : 0 < last.length := by
      cases last with
      | nil => simp [isIdle] at hi
      | cons c r => simp
    have hw : Text.width (last :: rest) ≤ body.length + 1 := by
      rw [← hd, ← Text.width_split '/' body, ← Text.width_reverse (Text.split '/' body)]
      exact Text.width_dropWhile ..
    have hr : Text.width (dropIdle rest) ≤ Text.width rest := Text.width_dropWhile ..
    have hj : (Text.join '/' (dropIdle rest).reverse).length ≤ Text.width (dropIdle rest) - 1 := by
      cases hn : (dropIdle rest).reverse with
      | nil => simp [Text.join]
      | cons a as =>
        have := Text.length_join '/' (a :: as) (by simp)
        rw [← hn, Text.width_reverse] at this
        rw [← hn]; omega
    cases h
    simp at hw ⊢
    omega
  · split at h
    · next hd =>
      cases h
      subst hd
      simp at hp ⊢
      omega
    · cases h

end Path

end Sema
