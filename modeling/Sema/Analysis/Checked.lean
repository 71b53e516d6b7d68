import Sema.Issue
import Sema.Note

/-!
Results of checking bodies. Checking writes nothing: it gives the notes to be written and the issues
found, in order, and then a value or the cause for which it stopped. What was given before a stop is
kept, so that the notes can be written up to that point.
-/

namespace Sema

structure Checked (α : Type) where
  notes : List (NodeId × Note)
  findings : List Finding
  outcome : Except AnalysisError α

namespace Checked

variable {α β : Type}

/-- A value that needs neither note nor issue. -/
protected def pure (x : α) : Checked α := ⟨[], [], .ok x⟩

/-- Stops checking. -/
def fail (e : AnalysisError) : Checked α := ⟨[], [], .error e⟩

/-- Goes on with the value of `x`; all it gives comes after what `x` gave. -/
protected def bind (x : Checked α) (f : α → Checked β) : Checked β :=
  match x.outcome with
  | .ok v =>
      let y := f v
      ⟨x.notes ++ y.notes, x.findings ++ y.findings, y.outcome⟩
  | .error e => ⟨x.notes, x.findings, .error e⟩

instance : Monad Checked where
  pure := Checked.pure
  bind := Checked.bind

/-- Gives a note. -/
def note (n : NodeId) (x : Note) : Checked Unit := ⟨[(n, x)], [], .ok ()⟩

/-- Gives an issue. -/
def report (file : String) (pos : Position) (issue : Issue) : Checked Unit :=
  ⟨[], [⟨file, pos, issue⟩], .ok ()⟩

/-- The value wanted, or else the cause to stop. -/
def ofOption (e : AnalysisError) : Option α → Checked α
  | some x => .pure x
  | none => fail e

/-- The value wanted, or else the cause to stop that `f` makes of the failure. -/
def ofExcept {ε : Type} (f : ε → AnalysisError) : Except ε α → Checked α
  | .ok x => .pure x
  | .error e => fail (f e)

end Checked

end Sema
