import Sema.Decl

/-!
A program: the trees of all its files, and which of them is the entry.
-/

namespace Sema

structure SourceFile where
  /-- The path that diagnostics name. -/
  path : String
  /-- The node of the file as a whole. -/
  root : Node
  decls : List Decl

structure Program where
  files : List SourceFile
  /-- The index of the file whose root export counts; it may lie beyond the last file. -/
  entry : UInt64

/-- The entry file, if the program has it. -/
def Program.entryFile? (p : Program) : Option SourceFile := p.files[p.entry.toNat]?

end Sema
