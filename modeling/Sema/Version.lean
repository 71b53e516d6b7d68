import Sema.Text.Split

/-!
Versions `major.minor.patch`. A version text has exactly two dots; each of its three parts is a
nonempty run of ASCII digits, with any number of leading zeros, for a number below 2^32.
-/

namespace Sema

structure Version where
  major : UInt32
  minor : UInt32
  patch : UInt32
deriving DecidableEq

namespace Version

/-- Reads one part: digits only, so neither a sign nor a blank. -/
def part? (ds : List Char) : Option UInt32 :=
  let n := Nat.ofDigitChars 10 ds 0
  if ds ≠ [] ∧ ds.all Char.isDigit ∧ n < UInt32.size then some (UInt32.ofNat n) else none

def parse? (text : String) : Option Version :=
  match Text.split '.' text.toList with
  | [a, b, c] => do return ⟨← part? a, ← part? b, ← part? c⟩
  | _ => none

/-- The written form, without superfluous zeros. -/
def render (v : Version) : String :=
  Nat.repr v.major.toNat ++ "." ++ Nat.repr v.minor.toNat ++ "." ++ Nat.repr v.patch.toNat

end Version

end Sema
