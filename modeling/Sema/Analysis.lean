import Sema.Bindings
import Sema.Issue
import Sema.Note
import Sema.OutputKind
import Sema.Version

/-!
The result of an analysis, which is also its state while it runs: it starts empty, is filled by the
signatures of all files first and by the bodies after them, and every step only adds to it.
-/

namespace Sema

/-- What is known about the artifact. -/
structure Output where
  kind : Option OutputKind
  name : Option String
  version : Option Version
  /-- The root export that was honored. -/
  decl : Option NodeId
deriving DecidableEq

structure Analysis where
  types : TypeTable
  notes : Notes
  findings : List Finding
  /-- All functions in the order of their declarations; a `FunctionId` is an index of this list. -/
  functions : List Function
  /-- The functions with bodies, in the order of their declarations. -/
  definitionIds : List FunctionId
  /-- The functions that every file sees. -/
  globals : Bindings
  /-- The functions of each file that is done, in file order. -/
  locals : List Bindings
  /-- The libraries to link with, sorted. -/
  libraries : List String
  output : Output

namespace Analysis

/-- The analysis before any file is looked at. -/
def initial (options : BuildOptions) : Analysis where
  types := .initial
  notes := .empty
  findings := []
  functions := []
  definitionIds := []
  globals := .empty
  locals := []
  libraries := []
  output := ⟨options.outKind, options.outName, none, none⟩

/-- Adds an issue. -/
def report (a : Analysis) (file : String) (pos : Position) (issue : Issue) : Analysis :=
  { a with findings := a.findings ++ [⟨file, pos, issue⟩] }

/-- Writes the note of a node. -/
def record (a : Analysis) (n : NodeId) (note : Note) : Except AnalysisError Analysis :=
  (a.notes.record n note).map fun notes => { a with notes := notes }

/-- Adds a function and gives its handle. -/
def addFunction (a : Analysis) (f : Function) : FunctionId × Analysis :=
  let id : FunctionId := ⟨a.functions.length⟩
  (id, { a with
    functions := a.functions ++ [f]
    definitionIds :=
      if f.definition.isSome then a.definitionIds ++ [id] else a.definitionIds })

def hasErrors (a : Analysis) : Bool := !a.findings.isEmpty

/-- The issues in the order in which they were found, as messages. -/
def diagnostics (a : Analysis) : Diagnostics := ⟨a.findings.map Finding.diagnostic⟩

def function? (a : Analysis) (f : FunctionId) : Option Function := a.functions[f.index]?

/-- The functions with bodies, in the order of their declarations. -/
def definitions (a : Analysis) : List Function := a.definitionIds.filterMap a.function?

/-- The function a name stands for in a file: one of the file itself, else one that every file
sees. -/
def lookupFunction (a : Analysis) (file : Nat) (name : String) : Option FunctionId :=
  (a.locals[file]?.bind (·.get? name)).or (a.globals.get? name)

/-- The name of the type of an expression. -/
def exprTypeName? (a : Analysis) (n : NodeId) : Option String :=
  (a.notes.exprType? n).bind a.types.name?

end Analysis

end Sema
