import Sema.Json.Numeral

/-!
The tokens of a JSON text.

A reader that wants a value and a reader that skips one are not equally strict. Skipping lets pass a
string with an escape for half a surrogate pair and a number beyond the range of floats; and where a
number is cut off by the end of the text, it sees a wrong number and no early end. So a fault has
two sides, and such strings and numbers are tokens of their own.
-/

namespace Sema.Json

/-- Why a text is no JSON: something in it is wrong, or it ends too early. -/
inductive Fault where
  | malformed
  | ended
deriving DecidableEq

/-- A fault as it shows to a reader that needs the value, and to one that skips it. -/
structure Halt where
  needed : Fault
  skipped : Fault
deriving DecidableEq

namespace Halt

def malformed : Halt := ⟨.malformed, .malformed⟩

def ended : Halt := ⟨.ended, .ended⟩

/-- A number that is cut off. -/
def cutNumber : Halt := ⟨.ended, .malformed⟩

end Halt

inductive Token where
  | openArray
  | closeArray
  | openObject
  | closeObject
  | comma
  | colon
  | null
  | bool (value : Bool)
  | number (value : Numeral)
  /-- A string; there is no text if an escape in it stands for half a surrogate pair. -/
  | string (text : Option String)
  /-- A string that does not come to its end. -/
  | brokenString (halt : Halt)
  /-- Anything else that is no token. -/
  | broken (halt : Halt)
deriving DecidableEq

def isBlank (c : Char) : Bool := c = ' ' || c = '\n' || c = '\t' || c = '\r'

/-- A token at the start of a text, and what follows it. Nothing follows a broken token. -/
abbrev Scanned := Token × List Char

/-! ### Words -/

/-- Reads the rest of a word. -/
def scanWord (t : Token) : List Char → List Char → Scanned
  | [], rest => (t, rest)
  | _ :: _, [] => (.broken .ended, [])
  | w :: ws, c :: rest => if c = w then scanWord t ws rest else (.broken .malformed, [])

/-! ### Strings -/

/-- The value of a hexadecimal digit. -/
def hexValue? (c : Char) : Option Nat :=
  if '0' ≤ c ∧ c ≤ '9' then some (c.toNat - '0'.toNat)
  else if 'a' ≤ c ∧ c ≤ 'f' then some (c.toNat - 'a'.toNat + 10)
  else if 'A' ≤ c ∧ c ≤ 'F' then some (c.toNat - 'A'.toNat + 10)
  else none

/-- The unit that four hexadecimal digits stand for, and what follows them. -/
structure HexUnit where
  value : Nat
  rest : List Char

/-- The number of bytes of a text in UTF-8. -/
def byteCount : List Char → Nat
  | [] => 0
  | c :: r => c.utf8Size + byteCount r

/-- Reads four hexadecimal digits. The text ends too early if fewer than four bytes are left. -/
def scanHex (s : List Char) : Except Fault HexUnit :=
  match s with
  | a :: b :: c :: d :: rest =>
    match hexValue? a, hexValue? b, hexValue? c, hexValue? d with
    | some a, some b, some c, some d => .ok ⟨((a * 16 + b) * 16 + c) * 16 + d, rest⟩
    | _, _, _, _ => .error .malformed
  | _ => .error (if byteCount s < 4 then .ended else .malformed)

/-- What an escape stands for: a character or nothing, and what follows it. -/
structure Escaped where
  char : Option Char
  rest : List Char

def isHighSurrogate (u : Nat) : Bool := 0xD800 ≤ u && u < 0xDC00

def isLowSurrogate (u : Nat) : Bool := 0xDC00 ≤ u && u < 0xE000

/-- Reads the second half of a surrogate pair whose first half is `high`. -/
def scanLow (high : Nat) (s : List Char) : Except Fault Escaped :=
  match s with
  | [] => .error .ended
  | ['\\'] => .error .ended
  | '\\' :: 'u' :: r => do
    let low ← scanHex r
    if isLowSurrogate low.value then
      let code := 0x10000 + (high - 0xD800) * 0x400 + (low.value - 0xDC00)
      return ⟨some (Char.ofNat code), low.rest⟩
    else return ⟨none, low.rest⟩
  | _ => .ok ⟨none, s⟩

/-- Reads the part of an escape that follows the backslash. -/
def scanEscape (s : List Char) : Except Fault Escaped :=
  match s with
  | [] => .error .ended
  | 'u' :: r => do
    let unit ← scanHex r
    if isHighSurrogate unit.value then scanLow unit.value unit.rest
    else if isLowSurrogate unit.value then return ⟨none, unit.rest⟩
    else return ⟨some (Char.ofNat unit.value), unit.rest⟩
  | c :: r =>
    if c = '"' ∨ c = '\\' ∨ c = '/' then .ok ⟨some c, r⟩
    else if c = 'b' then .ok ⟨some '\x08', r⟩
    else if c = 'f' then .ok ⟨some '\x0c', r⟩
    else if c = 'n' then .ok ⟨some '\n', r⟩
    else if c = 'r' then .ok ⟨some '\r', r⟩
    else if c = 't' then .ok ⟨some '\t', r⟩
    else .error .malformed

theorem length_of_scanHex {s : List Char} {u : HexUnit} (h : scanHex s = .ok u) :
    u.rest.length < s.length := by
  unfold scanHex at h
  split at h
  · split at h
    · cases h; simp; omega
    · cases h
  · cases h

theorem length_of_scanLow {n : Nat} {s : List Char} {e : Escaped} (h : scanLow n s = .ok e) :
    e.rest.length ≤ s.length := by
  unfold scanLow at h
  split at h
  · cases h
  · cases h
  · next r =>
    cases hx : scanHex r with
    | error f => simp [hx, bind, Except.bind] at h
    | ok u =>
      have := length_of_scanHex hx
      simp only [hx, bind, Except.bind, pure, Except.pure] at h
      split at h <;> cases h <;> simp <;> omega
  · cases h; exact Nat.le_refl _

theorem length_of_scanEscape {s : List Char} {e : Escaped} (h : scanEscape s = .ok e) :
    e.rest.length < s.length := by
  unfold scanEscape at h
  split at h
  · cases h
  · next r =>
    cases hx : scanHex r with
    | error f => simp [hx, bind, Except.bind] at h
    | ok u =>
      have := length_of_scanHex hx
      simp only [hx, bind, Except.bind, pure, Except.pure] at h
      split at h
      · have := length_of_scanLow h
        simp; omega
      · split at h <;> cases h <;> simp <;> omega
  · repeat' split at h
    all_goals cases h
    all_goals simp

/-- Reads a string after its opening quote. `sofar` is the text read, last character first, as long
as every escape stood for a character. -/
def scanString (sofar : Option (List Char)) (s : List Char) : Scanned :=
  match s with
  | [] => (.brokenString ⟨if sofar.isSome then .ended else .malformed, .ended⟩, [])
  | c :: r =>
    if c = '"' then (.string (sofar.map fun cs => String.ofList cs.reverse), r)
    else if c = '\\' then
      match _h : scanEscape r with
      | .ok e => scanString (do return (← e.char) :: (← sofar)) e.rest
      | .error f => (.brokenString ⟨if sofar.isSome then f else .malformed, f⟩, [])
    else if c.toNat < 32 then (.brokenString .malformed, [])
    else scanString (sofar.map (c :: ·)) r
termination_by s.length
decreasing_by
  · have := length_of_scanEscape _h
    simp; omega
  · simp

/-! ### Numbers -/

/-- A run of digits at the start of a text, and what follows it. -/
def spanDigits (s : List Char) : List Char × List Char :=
  (s.takeWhile Char.isDigit, s.dropWhile Char.isDigit)

/-- Reads the exponent of a number, of which the rest is read already. -/
def scanExponent (negative : Bool) (whole : List Char) (fraction : Option (List Char))
    (s : List Char) : Scanned :=
  match s with
  | [] => (.number (.ofParts negative whole fraction none), s)
  | c :: r =>
    if c = 'e' ∨ c = 'E' then
      let (down, r) :=
        match r with
        | '+' :: r' => (false, r')
        | '-' :: r' => (true, r')
        | _ => (false, r)
      match spanDigits r with
      | ([], []) => (.broken .cutNumber, [])
      | ([], _ :: _) => (.broken .malformed, [])
      | (ds, rest) =>
        let n : Int := Nat.ofDigitChars 10 ds 0
        (.number (.ofParts negative whole fraction (some (if down then -n else n))), rest)
    else (.number (.ofParts negative whole fraction none), s)

/-- Reads the part of a number that follows its whole digits. -/
def scanFraction (negative : Bool) (whole : List Char) (s : List Char) : Scanned :=
  match s with
  | '.' :: r =>
    match spanDigits r with
    | ([], []) => (.broken .cutNumber, [])
    | ([], _ :: _) => (.broken .malformed, [])
    | (ds, rest) => scanExponent negative whole (some ds) rest
  | _ => scanExponent negative whole none s

/-- Reads a number after its sign. A number that begins with zero has no other whole digit. -/
def scanNumber (negative : Bool) (s : List Char) : Scanned :=
  match spanDigits s with
  | ([], []) => (.broken .cutNumber, [])
  | ([], _ :: _) => (.broken .malformed, [])
  | ('0' :: _ :: _, _) => (.broken .malformed, [])
  | (ds, rest) => scanFraction negative ds rest

/-! ### All tokens -/

/-- Reads the token that begins with the character `c`, which is no blank. -/
def scanToken (c : Char) (r : List Char) : Scanned :=
  if c = '[' then (.openArray, r)
  else if c = ']' then (.closeArray, r)
  else if c = '\x7b' then (.openObject, r)
  else if c = '\x7d' then (.closeObject, r)
  else if c = ',' then (.comma, r)
  else if c = ':' then (.colon, r)
  else if c = '"' then scanString (some []) r
  else if c = '-' then scanNumber true r
  else if c.isDigit then scanNumber false (c :: r)
  else if c = 'n' then scanWord .null ['u', 'l', 'l'] r
  else if c = 't' then scanWord (.bool true) ['r', 'u', 'e'] r
  else if c = 'f' then scanWord (.bool false) ['a', 'l', 's', 'e'] r
  else (.broken .malformed, [])

theorem length_scanWord (t : Token) (ws s : List Char) : (scanWord t ws s).2.length ≤ s.length := by
  fun_induction scanWord t ws s <;> simp_all; omega

theorem length_scanString (sofar : Option (List Char)) (s : List Char) :
    (scanString sofar s).2.length ≤ s.length := by
  fun_induction scanString sofar s with
  | case1 => simp
  | case2 => simp
  | case3 sofar r e he _ ih =>
    have := length_of_scanEscape he
    exact Nat.le_trans ih (by simp; omega)
  | case4 => simp
  | case5 => simp
  | case6 => simp; omega

theorem length_dropWhile (p : Char → Bool) (s : List Char) : (s.dropWhile p).length ≤ s.length :=
  (List.dropWhile_sublist p).length_le

theorem length_scanExponent (negative : Bool) (whole : List Char) (fraction : Option (List Char))
    (s : List Char) : (scanExponent negative whole fraction s).2.length ≤ s.length := by
  unfold scanExponent spanDigits
  split
  · simp
  · next c r =>
    split
    · have h := length_dropWhile Char.isDigit
      split
      next down r' hr =>
      have hr' : r'.length ≤ r.length := by
        split at hr <;> cases hr <;> simp
      have := h r'
      split
      · simp
      · simp
      · next hd => simp only [Prod.mk.injEq] at hd; simp [← hd.2]; omega
    · simp

theorem length_scanFraction (negative : Bool) (whole s : List Char) :
    (scanFraction negative whole s).2.length ≤ s.length := by
  unfold scanFraction spanDigits
  split
  · next r =>
    have := length_dropWhile Char.isDigit r
    split
    · simp
    · simp
    · next hd =>
      simp only [Prod.mk.injEq] at hd
      have := length_scanExponent negative whole (some (r.takeWhile Char.isDigit))
        (r.dropWhile Char.isDigit)
      rw [← hd.1, ← hd.2]
      simp; omega
  · exact length_scanExponent ..

theorem length_scanNumber (negative : Bool) (s : List Char) :
    (scanNumber negative s).2.length ≤ s.length := by
  unfold scanNumber spanDigits
  have := length_dropWhile Char.isDigit s
  split
  · simp
  · simp
  · simp
  · next hd =>
    simp only [Prod.mk.injEq] at hd
    rw [← hd.1, ← hd.2]
    have := length_scanFraction negative (s.takeWhile Char.isDigit) (s.dropWhile Char.isDigit)
    omega

/-- A number that begins with a digit takes that digit at least. -/
theorem length_scanNumber_of_isDigit (c : Char) (r : List Char) (h : c.isDigit = true) :
    (scanNumber false (c :: r)).2.length ≤ r.length := by
  unfold scanNumber spanDigits
  have hl := length_dropWhile Char.isDigit r
  simp only [List.takeWhile_cons, List.dropWhile_cons, h, if_true]
  split
  · simp
  · simp
  · simp
  · next ds rest _ _ _ hd =>
    simp only [Prod.mk.injEq] at hd
    have := length_scanFraction false ds rest
    rw [← hd.2] at this ⊢
    omega

theorem length_ite {p : Prop} [Decidable p] {a b : Scanned} {n : Nat}
    (ha : p → a.2.length ≤ n) (hb : ¬ p → b.2.length ≤ n) : (if p then a else b).2.length ≤ n := by
  by_cases h : p
  · rw [if_pos h]; exact ha h
  · rw [if_neg h]; exact hb h

theorem length_scanToken (c : Char) (r : List Char) : (scanToken c r).2.length ≤ r.length :=
  length_ite (fun _ => Nat.le_refl _) fun _ =>
  length_ite (fun _ => Nat.le_refl _) fun _ =>
  length_ite (fun _ => Nat.le_refl _) fun _ =>
  length_ite (fun _ => Nat.le_refl _) fun _ =>
  length_ite (fun _ => Nat.le_refl _) fun _ =>
  length_ite (fun _ => Nat.le_refl _) fun _ =>
  length_ite (fun _ => length_scanString ..) fun _ =>
  length_ite (fun _ => length_scanNumber ..) fun _ =>
  length_ite (length_scanNumber_of_isDigit c r) fun _ =>
  length_ite (fun _ => length_scanWord ..) fun _ =>
  length_ite (fun _ => length_scanWord ..) fun _ =>
  length_ite (fun _ => length_scanWord ..) fun _ => Nat.zero_le _

end Sema.Json
