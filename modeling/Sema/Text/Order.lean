/-!
The order of texts by code points, which is also the order of their UTF-8 bytes.
-/

namespace Sema.Text

/-- Whether the first text comes before the second or equals it. -/
def le : List Char → List Char → Bool
  | [], _ => true
  | _ :: _, [] => false
  | a :: r, b :: s => if a = b then le r s else Nat.blt a.toNat b.toNat

/-- Puts a text at its place among sorted ones, unless it is there already. -/
def insertSorted (x : String) : List String → List String
  | [] => [x]
  | y :: r =>
    if x = y then y :: r
    else if le x.toList y.toList then x :: y :: r
    else y :: insertSorted x r

theorem mem_insertSorted {x y : String} {l : List String} :
    y ∈ insertSorted x l ↔ y = x ∨ y ∈ l := by
  induction l with
  | nil => simp [insertSorted]
  | cons z r ih =>
    unfold insertSorted
    split
    · next h => subst h; simp
    · split <;> simp [ih, or_left_comm]

end Sema.Text
