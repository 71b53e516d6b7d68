/-!
TOML numbers and dates. Their values are of no use to a manifest, so it is only told apart what is
one and what is none: integers lie in the signed 64-bit range, floats do not overflow upwards, and
dates are days of the calendar.
-/

namespace Sema.Toml

/-! ### Digits -/

/-- Removes the underscores of a run of digits, each of which stands between two digits. -/
def ungroup (isDigit : Char → Bool) : List Char → Option (List Char)
  | [] => none
  | [d] => if isDigit d then some [d] else none
  | d :: '_' :: r => if isDigit d then (ungroup isDigit r).map (d :: ·) else none
  | d :: r => if isDigit d then (ungroup isDigit r).map (d :: ·) else none

def isHexDigit (c : Char) : Bool :=
  c.isDigit || 'a' ≤ c && c ≤ 'f' || 'A' ≤ c && c ≤ 'F'

/-- The value of a hexadecimal digit. -/
def hexValue (c : Char) : Nat :=
  if c.isDigit then c.toNat - '0'.toNat
  else if 'a' ≤ c then c.toNat - 'a'.toNat + 10
  else c.toNat - 'A'.toNat + 10

/-- The value of a run of digits in a base. -/
def valueIn (base : Nat) (ds : List Char) : Nat := ds.foldl (fun n d => base * n + hexValue d) 0

/-! ### Integers -/

/-- The digits of a decimal integer without its sign. Only zero itself begins with a zero. -/
def decimalDigits? (s : List Char) : Option (List Char) :=
  match ungroup Char.isDigit s with
  | some ('0' :: _ :: _) => none
  | ds => ds

/-- What a signed integer of 64 bits stays below. -/
def intBound : Nat := Nat.pow 2 63

/-- Whether a text is a natural number below 2^63 in a base other than ten. -/
def isBased (base : Nat) (isDigit : Char → Bool) (s : List Char) : Bool :=
  match ungroup isDigit s with
  | some ds => valueIn base ds < intBound
  | none => false

/-- Takes the sign off a number. -/
def unsign : List Char → Bool × List Char
  | '-' :: r => (true, r)
  | '+' :: r => (false, r)
  | s => (false, s)

def isInteger (s : List Char) : Bool :=
  match s with
  | '0' :: 'x' :: r => isBased 16 isHexDigit r
  | '0' :: 'o' :: r => isBased 8 (fun c => '0' ≤ c && c ≤ '7') r
  | '0' :: 'b' :: r => isBased 2 (fun c => c = '0' || c = '1') r
  | s =>
    let (negative, r) := unsign s
    match decimalDigits? r with
    | some ds => valueIn 10 ds < intBound + negative.toNat
    | none => false

/-! ### Floats -/

/-- Whether `ds` times ten to the power `e` is too large for a float: half a unit above the largest
one, or more. -/
def overflows (ds : List Char) (e : Int) : Bool :=
  let ds := ds.dropWhile (· = '0')
  let bound := Nat.pow 2 1024 - Nat.pow 2 970
  let size : Int := e + ds.length
  if ds = [] ∨ size < 309 then false
  else if 309 < size then true
  else if 0 ≤ e then bound ≤ valueIn 10 ds * Nat.pow 10 e.toNat
  else bound * Nat.pow 10 (-e).toNat ≤ valueIn 10 ds

/-- The exponent of a float: nothing, or a mark and an integer that may begin with zeros. -/
def exponent? : List Char → Option Int
  | [] => some 0
  | c :: r =>
    if c = 'e' ∨ c = 'E' then
      let (negative, r) := unsign r
      (ungroup Char.isDigit r).map fun ds =>
        let n : Int := valueIn 10 ds
        if negative then -n else n
    else none

/-- Whether a character belongs to the digits of a float. -/
def isGrouped (c : Char) : Bool := c.isDigit || c = '_'

def isFloat (s : List Char) : Bool :=
  let (negative, r) := unsign s
  if r = ['i', 'n', 'f'] ∨ r = ['n', 'a', 'n'] then true
  else
    match decimalDigits? (r.takeWhile isGrouped), r.dropWhile isGrouped with
    | some whole, '.' :: r =>
      match ungroup Char.isDigit (r.takeWhile isGrouped), exponent? (r.dropWhile isGrouped) with
      | some fraction, some e => negative || !overflows (whole ++ fraction) (e - fraction.length)
      | _, _ => false
    | some whole, c :: r =>
      match exponent? (c :: r) with
      | some e => negative || !overflows whole e
      | none => false
    | _, _ => false

/-! ### Dates and times -/

/-- A number of two digits. -/
def twoDigits? (a b : Char) : Option Nat :=
  if a.isDigit && b.isDigit then some (valueIn 10 [a, b]) else none

/-- Whether a text is a number of two digits, at most `limit`. -/
def isBelow (limit : Nat) (a b : Char) : Bool :=
  match twoDigits? a b with
  | some n => n ≤ limit
  | none => false

/-- The number of days of a month. -/
def daysIn (year month : Nat) : Nat :=
  if month = 2 then
    if year % 4 = 0 ∧ (year % 100 ≠ 0 ∨ year % 400 = 0) then 29 else 28
  else if month = 4 ∨ month = 6 ∨ month = 9 ∨ month = 11 then 30
  else 31

def isDay (year : Nat) (month day : Option Nat) : Bool :=
  match month, day with
  | some m, some d => 1 ≤ m && m ≤ 12 && 1 ≤ d && d ≤ daysIn year m
  | _, _ => false

/-- The difference to universal time. -/
def isOffset : List Char → Bool
  | [] => true
  | [c] => c = 'Z' || c = 'z'
  | [sign, a, b, ':', c, d] => (sign = '+' || sign = '-') && isBelow 23 a b && isBelow 59 c d
  | _ => false

/-- What follows the seconds: a fraction, and where it is allowed an offset. -/
def isTimeEnd (withOffset : Bool) (s : List Char) : Bool :=
  let rest :=
    match s with
    | '.' :: c :: r => if c.isDigit then r.dropWhile Char.isDigit else s
    | s => s
  if withOffset then isOffset rest else rest = []

def isTime (withOffset : Bool) : List Char → Bool
  | a :: b :: ':' :: c :: d :: ':' :: e :: f :: r =>
    isBelow 23 a b && isBelow 59 c d && isBelow 60 e f && isTimeEnd withOffset r
  | _ => false

/-- Whether a text is a date alone. -/
def isDate : List Char → Bool
  | [a, b, c, d, '-', e, f, '-', g, h] =>
    [a, b, c, d].all Char.isDigit
      && isDay (valueIn 10 [a, b, c, d]) (twoDigits? e f) (twoDigits? g h)
  | _ => false

/-- Whether a text is a date, a time or both with a `T` between them. -/
def isDateTime (s : List Char) : Bool :=
  isTime false s || isDate s ||
    match s.drop 10 with
    | t :: r => (t = 'T' || t = 't') && isDate (s.take 10) && isTime true r
    | [] => false

/-- Whether a text without blanks is a value that is neither a string nor a container. -/
def isScalar (s : List Char) : Bool :=
  s = ['t', 'r', 'u', 'e'] || s = ['f', 'a', 'l', 's', 'e']
    || isInteger s || isFloat s || isDateTime s

end Sema.Toml
