import Sema.Analysis.Bodies
import Sema.Analysis.Signatures

/-!
The analysis of a program: signatures, then bodies, then the demand that the artifact has a name and
a kind. Mistakes in the program are findings of the result; there is no result when the program uses
what has no typing rule, or when its node ids collide.
-/

namespace Sema

namespace Analysis

/-- Where a fault of the program as a whole is reported. -/
def programPlace (p : Program) : String × Position :=
  match p.entryFile? with
  | some f => (f.path, f.root.pos)
  | none => ("<program>", .nowhere)

/-- Reports what is missing to name the artifact. -/
def requireOutput (p : Program) (a : Analysis) : Analysis :=
  let (path, pos) := programPlace p
  let a := if a.output.name.isNone then a.report path pos .missingOutputName else a
  if a.output.kind.isNone then a.report path pos .missingOutputKind else a

end Analysis

/-- Analyses a program. The build options take precedence over its root export. -/
def Program.analyze (p : Program) (options : BuildOptions) : Except AnalysisError Analysis := do
  let a ← (Analysis.initial options).readFiles p.entry.toNat 0 p.files
  let a ← a.absorb (a.checkFiles 0 p.files)
  return a.requireOutput p

end Sema
