import Sema.Text.Blank

/-!
The lines of a text. A line goes up to a break and holds it, so that the lines together are the text
again. A carriage return and the line feed after it are one break.
-/

namespace Sema.Text

/-- Whether a line ends with `c`, when `r` comes next. -/
def endsLine (c : Char) (r : List Char) : Bool :=
  isBreak c && !(c == '\r' && r.head? == some '\n')

/-- Puts a character in front of the first line. -/
def extendFirst (c : Char) : List (List Char) → List (List Char)
  | [] => [[c]]
  | l :: ls => (c :: l) :: ls

/-- The lines of a text; an empty text has none. -/
def lines : List Char → List (List Char)
  | [] => []
  | c :: r => if endsLine c r then [c] :: lines r else extendFirst c (lines r)

theorem flatten_extendFirst (c : Char) (ls : List (List Char)) :
    (extendFirst c ls).flatten = c :: ls.flatten := by
  cases ls <;> simp [extendFirst]

/-- Nothing is lost. -/
theorem flatten_lines (s : List Char) : (lines s).flatten = s := by
  induction s with
  | nil => rfl
  | cons c r ih =>
    unfold lines
    split <;> simp [flatten_extendFirst, ih]

/-- A place in a text: the lines before its own, the characters of its line before it, and its
line. -/
structure Spot where
  row : Nat
  column : Nat
  line : List Char

/-- The place of the character with index `k`. -/
def spot? (k : Nat) : List (List Char) → Option Spot
  | [] => none
  | l :: ls =>
    if k < l.length then some ⟨0, k, l⟩
    else (spot? (k - l.length) ls).map fun s => { s with row := s.row + 1 }

/-- The place after the last character, which still counts as one of the last line. -/
def endSpot? (ls : List (List Char)) : Option Spot :=
  ls.getLast?.map fun l => ⟨ls.length - 1, l.length, l⟩

/-- The lines of a text have a place for an index exactly when it has a character there. -/
theorem isSome_spot? (k : Nat) (ls : List (List Char)) :
    (spot? k ls).isSome ↔ k < ls.flatten.length := by
  induction ls generalizing k with
  | nil => simp [spot?]
  | cons l ls ih =>
    unfold spot?
    split
    · simp; omega
    · rw [Option.isSome_map, ih]
      simp; omega

end Sema.Text
