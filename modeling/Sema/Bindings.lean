import Sema.Function
import Sema.Text.Order

/-!
Bindings of names to functions. A name is bound once; binding it again replaces what it stood for.
-/

namespace Sema

/-- The function names of one scope: of a file, or of the whole program. -/
structure Bindings where
  pairs : List (String × FunctionId)

namespace Bindings

def empty : Bindings := ⟨[]⟩

def size (b : Bindings) : Nat := b.pairs.length

def get? (b : Bindings) (name : String) : Option FunctionId := b.pairs.lookup name

def contains (b : Bindings) (name : String) : Bool := (b.get? name).isSome

/-- Binds a name, in place of any earlier binding of it. -/
def insert (b : Bindings) (name : String) (f : FunctionId) : Bindings :=
  ⟨(name, f) :: b.pairs.filter (·.1 ≠ name)⟩

/-- All bindings in the order of their names. -/
def toSortedList (b : Bindings) : List (String × FunctionId) :=
  b.pairs.mergeSort fun p q => Text.le p.1.toList q.1.toList

/-! ### What a name stands for -/

@[simp] theorem get?_empty (name : String) : empty.get? name = none := rfl

theorem lookup_filter_ne {name other : String} (h : other ≠ name) (l : List (String × FunctionId)) :
    (l.filter (·.1 ≠ name)).lookup other = l.lookup other := by
  induction l with
  | nil => rfl
  | cons p l ih =>
    obtain ⟨k, f⟩ := p
    by_cases hk : k = name
    · have hne : (other == k) = false := by simp [hk, h]
      rw [List.filter_cons_of_neg (by simp [hk]), ih, List.lookup_cons, hne]
    · rw [List.filter_cons_of_pos (by simp [hk]), List.lookup_cons, List.lookup_cons, ih]

/-- Binding a name changes what this name stands for, and no other. -/
theorem get?_insert (b : Bindings) (name other : String) (f : FunctionId) :
    (b.insert name f).get? other = if other = name then some f else b.get? other := by
  unfold get? insert
  by_cases h : other = name
  · simp [h]
  · have hne : (other == name) = false := by simp [h]
    rw [List.lookup_cons, hne, if_neg h]
    exact lookup_filter_ne h b.pairs

end Bindings

end Sema
