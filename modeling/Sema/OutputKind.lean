/-!
The kinds of artifact a program can be compiled into.
-/

namespace Sema

inductive OutputKind where
  | executable
  | library
  | object
deriving DecidableEq

namespace OutputKind

/-- The word for a kind, in manifests and in root exports alike. -/
def word : OutputKind → String
  | .executable => "executable"
  | .library => "library"
  | .object => "object"

/-- The kind a word stands for; case matters. -/
def ofWord? (w : String) : Option OutputKind :=
  if w = "executable" then some .executable
  else if w = "library" then some .library
  else if w = "object" then some .object
  else none

theorem ofWord?_word (k : OutputKind) : ofWord? k.word = some k := by cases k <;> decide

end OutputKind

/-- Output settings from outside the source tree. What is left open here has to come from the
entry file's root export. -/
structure BuildOptions where
  outName : Option String
  outKind : Option OutputKind
deriving DecidableEq

/-- Options that settle nothing. -/
def BuildOptions.none : BuildOptions := ⟨Option.none, Option.none⟩

end Sema
