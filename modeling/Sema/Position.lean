/-!
Places in a file. A position counts lines and columns from one and bytes from zero; it is written
as `line:column`.
-/

namespace Sema

/-- A place in a source file. -/
structure Position where
  line : UInt32
  column : UInt32
  /-- The number of bytes before the place. -/
  offset : UInt32
deriving DecidableEq

namespace Position

/-- The position of something that stands in no file. -/
def nowhere : Position := ⟨0, 0, 0⟩

/-- The first place of a file. -/
def start : Position := ⟨1, 1, 0⟩

/-- The written form; the byte offset is left out. -/
def render (p : Position) : String :=
  Nat.repr p.line.toNat ++ ":" ++ Nat.repr p.column.toNat

end Position

end Sema
