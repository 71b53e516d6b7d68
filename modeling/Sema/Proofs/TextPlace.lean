import Mathlib.Data.List.DropRight
import Mathlib.Data.String.Basic
import Sema.Text.Line

/-!
Where a character of a text stands. Its row is told by the breaks before it, its column by what comes
after the last of these, and its line goes on up to the first break behind it. The row and the column
tell the index of the character, which is the number of bytes before it only where these are ASCII.
-/

namespace Sema.Text

/-! ### Breaks -/

/-- The number of breaks in a text; a carriage return and the line feed after it are one. -/
def breaks : List Char → Nat
  | [] => 0
  | c :: r => (if endsLine c r then 1 else 0) + breaks r

/-- What comes before the first break of a text. -/
def firstLine (s : List Char) : List Char := s.takeWhile (!isBreak ·)

/-- What comes after the last break of a text. -/
def lastLine (s : List Char) : List Char := s.rtakeWhile (!isBreak ·)

theorem isBreak_of_endsLine {c : Char} {r : List Char} (h : endsLine c r) : isBreak c := by
  simp only [endsLine, Bool.and_eq_true] at h
  exact h.1

/-- A break that ends no line is a carriage return before a line feed. -/
theorem head?_of_not_endsLine {c : Char} {r : List Char} (hc : isBreak c) (h : ¬ endsLine c r) :
    r.head? = some '\n' := by
  simp only [endsLine, hc, Bool.true_and, Bool.not_eq_true', Bool.not_eq_false, Bool.and_eq_true,
    beq_iff_eq] at h
  exact h.2

/-- Whether a character ends a line is not told by what is no break. -/
theorem endsLine_append {c : Char} (hc : isBreak c = false) (x : Char) (s t : List Char) :
    endsLine x (s ++ c :: t) = endsLine x s := by
  have hne : c ≠ '\n' := by rintro rfl; cases hc
  cases s with
  | nil => simp [endsLine, hne]
  | cons y s => rfl

theorem breaks_eq_zero_iff {s : List Char} : breaks s = 0 ↔ ∀ x ∈ s, isBreak x = false := by
  induction s with
  | nil => simp [breaks]
  | cons c r ih =>
    rw [breaks, Nat.add_eq_zero_iff, ih, List.forall_mem_cons]
    refine and_congr_left fun hr => ?_
    by_cases hends : endsLine c r
    · simp [hends, isBreak_of_endsLine hends]
    · simp only [hends, if_false, true_iff, Bool.false_eq_true]
      by_contra hc
      have hhead := head?_of_not_endsLine (by simpa using hc) hends
      exact absurd (hr _ (List.mem_of_mem_head? hhead)) (by decide)

theorem lastLine_eq_self_iff {s : List Char} : lastLine s = s ↔ breaks s = 0 := by
  simp [lastLine, breaks_eq_zero_iff]

/-- A character in front of a text comes after its last break only if there is none. -/
theorem lastLine_cons (x : Char) (s : List Char) :
    lastLine (x :: s) = if breaks (x :: s) = 0 then x :: lastLine s else lastLine s := by
  by_cases hnone : breaks (x :: s) = 0
  · have hrest : breaks s = 0 := (Nat.add_eq_zero_iff.mp hnone).2
    rw [if_pos hnone, lastLine_eq_self_iff.mpr hnone, lastLine_eq_self_iff.mpr hrest]
  · rw [if_neg hnone, lastLine, lastLine, List.rtakeWhile, List.rtakeWhile, List.reverse_cons,
      List.takeWhile_append]
    split
    · next hlen =>
      have hall := (List.takeWhile_prefix _).eq_of_length hlen
      have hself : lastLine s = s := by rw [lastLine, List.rtakeWhile, hall, List.reverse_reverse]
      -- behind `x` there is no break, so it is one
      have hx : isBreak x := by
        by_contra hx
        have hrest := breaks_eq_zero_iff.mp (lastLine_eq_self_iff.mp hself)
        exact hnone (breaks_eq_zero_iff.mpr (List.forall_mem_cons.mpr ⟨by simpa using hx, hrest⟩))
      rw [hall]
      simp [hx]
    · rfl

/-! ### Places -/

/-- The place of a character that is no break, between the text before it and the text behind it. -/
def placeBetween (before : List Char) (c : Char) (after : List Char) : Spot where
  row := breaks before
  column := (lastLine before).length
  line := lastLine before ++ c :: firstLine after

/-- The first line of a text goes up to its first break, and holds it. -/
theorem head?_lines (s : List Char) :
    ∃ e, (∀ x ∈ e, isBreak x) ∧ (lines s).head?.getD [] = firstLine s ++ e := by
  induction s with
  | nil => exact ⟨[], nofun, rfl⟩
  | cons c r ih =>
    obtain ⟨e, he, hhead⟩ := ih
    by_cases hends : endsLine c r
    · have hc := isBreak_of_endsLine hends
      exact ⟨[c], by simpa using hc, by simp [lines, hends, firstLine, hc]⟩
    · have hext : (extendFirst c (lines r)).head?.getD [] = c :: (lines r).head?.getD [] := by
        cases lines r <;> rfl
      rw [lines, if_neg hends, hext, hhead]
      by_cases hc : isBreak c
      · obtain ⟨r, rfl⟩ := List.head?_eq_some_iff.mp (head?_of_not_endsLine hc hends)
        have hfeed : isBreak '\n' := by decide
        exact ⟨c :: e, by simpa [hc] using he, by simp [firstLine, hc, hfeed]⟩
      · exact ⟨e, he, by simp [firstLine, hc]⟩

theorem spot?_zero_extendFirst (c : Char) (ls : List (List Char)) :
    spot? 0 (extendFirst c ls) = some ⟨0, 0, c :: ls.head?.getD []⟩ := by
  cases ls <;> simp [extendFirst, spot?]

theorem spot?_succ_extendFirst (x : Char) (k : Nat) (ls : List (List Char)) :
    spot? (k + 1) (extendFirst x ls) = (spot? k ls).map fun s =>
      if s.row = 0 then ⟨0, s.column + 1, x :: s.line⟩ else s := by
  cases ls with
  | nil => rfl
  | cons l ls =>
    rw [extendFirst, spot?, spot?, List.length_cons]
    by_cases hk : k < l.length
    · simp [hk]
    · have hsub : k + 1 - (l.length + 1) = k - l.length := by omega
      simp [hk, hsub, Function.comp_def]

/-- The lines of a text have a character that is no break where it stands between the texts around
it. -/
theorem spot?_lines {c : Char} (hc : isBreak c = false) (before after : List Char) :
    ∃ e, (∀ x ∈ e, isBreak x) ∧ spot? before.length (lines (before ++ c :: after)) =
      some { placeBetween before c after with line := (placeBetween before c after).line ++ e } := by
  induction before with
  | nil =>
    obtain ⟨e, he, hhead⟩ := head?_lines after
    have hends : ¬ endsLine c after := fun h => by simp [isBreak_of_endsLine h] at hc
    refine ⟨e, he, ?_⟩
    rw [List.nil_append, lines, if_neg hends, List.length_nil, spot?_zero_extendFirst, hhead]
    rfl
  | cons x before ih =>
    obtain ⟨e, he, hspot⟩ := ih
    refine ⟨e, he, ?_⟩
    rw [List.cons_append, lines, endsLine_append hc, List.length_cons]
    by_cases hends : endsLine x before
    · simp [hends, spot?, hspot, placeBetween, lastLine_cons, breaks, Nat.add_comm]
    · rw [if_neg hends, spot?_succ_extendFirst, hspot]
      -- `x` joins the first line, which is that of `c` if there is no break between them
      by_cases hnone : breaks before = 0 <;>
        simp [hends, placeBetween, lastLine_cons, breaks, hnone]

/-- The index of the character at a row and a column. -/
def Spot.index (s : Spot) (ls : List (List Char)) : Nat := (ls.take s.row).flatten.length + s.column

theorem index_of_spot? {k : Nat} {ls : List (List Char)} {s : Spot} (h : spot? k ls = some s) :
    s.index ls = k := by
  induction ls generalizing k s with
  | nil => cases h
  | cons l ls ih =>
    rw [spot?] at h
    split at h
    · obtain rfl := Option.some.inj h
      simp [Spot.index]
    · next hk =>
      obtain ⟨t, ht, rfl⟩ := Option.map_eq_some_iff.mp h
      have hindex := ih ht
      simp only [Spot.index, List.take_succ_cons, List.flatten_cons, List.length_append] at hindex ⊢
      omega

theorem index_of_endSpot? {ls : List (List Char)} {s : Spot} (h : endSpot? ls = some s) :
    s.index ls = ls.flatten.length := by
  obtain ⟨l, hl, rfl⟩ := Option.map_eq_some_iff.mp h
  obtain ⟨init, rfl⟩ := List.getLast?_eq_some_iff.mp hl
  simp [Spot.index]

/-! ### Bytes -/

theorem length_le_utf8ByteSize (s : List Char) : s.length ≤ (String.ofList s).utf8ByteSize := by
  rw [String.utf8ByteSize_ofList]
  induction s with
  | nil => exact Nat.le_refl _
  | cons c r ih =>
    have := c.utf8Size_pos
    rw [List.length_cons, String.utf8Len_cons]
    omega

/-- A text has as many bytes as characters exactly if it is ASCII. -/
theorem utf8ByteSize_eq_length_iff {s : List Char} :
    (String.ofList s).utf8ByteSize = s.length ↔ ∀ c ∈ s, c.toNat < 128 := by
  induction s with
  | nil => simp
  | cons c r ih =>
    have hone : c.utf8Size = 1 ↔ c.toNat < 128 := by
      rw [Char.utf8Size_eq_one_iff, UInt32.le_iff_toNat_le]
      exact Nat.lt_succ_iff.symm
    have hpos := c.utf8Size_pos
    have hle := length_le_utf8ByteSize r
    rw [List.forall_mem_cons, ← ih, ← hone, List.length_cons]
    rw [String.utf8ByteSize_ofList] at hle ⊢
    rw [String.utf8ByteSize_ofList, String.utf8Len_cons]
    omega

theorem utf8ByteSize_le_of_prefix {s : List Char} {text : String} (h : s <+: text.toList) :
    (String.ofList s).utf8ByteSize ≤ text.utf8ByteSize := by
  obtain ⟨r, hr⟩ := h
  rw [← String.ofList_toList (s := text), ← hr, String.utf8ByteSize_ofList,
    String.utf8ByteSize_ofList, String.utf8Len_append]
  exact Nat.le_add_right _ _

end Sema.Text
