/-!
JSON numbers. Only a natural number below 2^64 is read for its value; of any other number it matters
only whether it lies in the range of double-precision floats.

A number beyond that range is told by the arithmetic that a float reader does: at most 64 bits of
digits, rounded to 53 bits, times the nearest float to a power of ten.
-/

namespace Sema.Json

/-- The nearest number to `n` that has at most 53 significant bits; of two, the even one. -/
def round53 (n : Nat) : Nat :=
  let unit := Nat.pow 2 (n.log2 - 52)
  let q := n / unit
  let r := 2 * (n % unit)
  if r < unit ∨ r = unit ∧ q % 2 = 0 then q * unit else (q + 1) * unit

/-- The digits that fit in 64 bits after those of `m`, and the count of the digits left over. -/
def takeDigits (m : Nat) : List Char → Nat × Nat
  | [] => (m, 0)
  | d :: ds =>
    let next := 10 * m + (d.toNat - '0'.toNat)
    if next < UInt64.size then takeDigits next ds else (m, ds.length + 1)

/-- Whether `whole.fraction` times ten to the power `exponent` lies in the range of double-precision
floats. -/
def inDoubleRange (whole fraction : List Char) (exponent : Int) : Bool :=
  let (m, dropped) := takeDigits 0 whole
  let (m, unread) := takeDigits m fraction
  let scale : Int := exponent + dropped - (fraction.length - unread : Nat)
  if m = 0 then true
  else if scale < 0 then true
  else if 308 < scale then false
  else round53 (round53 m * round53 (Nat.pow 10 scale.toNat)) < Nat.pow 2 1024

/-- What is known of a number. -/
inductive Numeral where
  | natural (value : UInt64)
  | other (inRange : Bool)
deriving DecidableEq

/-- The number with the given digits. The sign matters only in that a natural number has none. -/
def Numeral.ofParts (negative : Bool) (whole : List Char) (fraction : Option (List Char))
    (exponent : Option Int) : Numeral :=
  let n := Nat.ofDigitChars 10 whole 0
  if negative = false ∧ fraction = none ∧ exponent = none ∧ n < UInt64.size then
    .natural (UInt64.ofNat n)
  else .other (inDoubleRange whole (fraction.getD []) (exponent.getD 0))

end Sema.Json
