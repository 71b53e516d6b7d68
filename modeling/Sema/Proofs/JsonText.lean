import Mathlib.Tactic.SplitIfs
import Sema.Json.Reading

/-!
The short form of a JSON value, read as a text, gives this value.
-/

namespace Sema.Json

/-! ### Strings -/

theorem hexValue?_digitChar : ∀ n < 16, hexValue? (Nat.digitChar n) = some n := by decide

/-- The long escape of a control character stands for this character. -/
theorem scanEscape_control {c : Char} (hc : c.toNat < 32) (r : List Char) :
    scanEscape ('u' :: '0' :: '0' :: Nat.digitChar (c.toNat / 16) ::
      Nat.digitChar (c.toNat % 16) :: r) = .ok ⟨some c, r⟩ := by
  have hzero : hexValue? '0' = some 0 := rfl
  have hvalue : ((0 * 16 + 0) * 16 + c.toNat / 16) * 16 + c.toNat % 16 = c.toNat := by omega
  have hhigh : isHighSurrogate c.toNat = false := by
    rw [isHighSurrogate, Bool.and_eq_false_iff]
    exact .inl (decide_eq_false (by omega))
  have hlow : isLowSurrogate c.toNat = false := by
    rw [isLowSurrogate, Bool.and_eq_false_iff]
    exact .inl (decide_eq_false (by omega))
  rw [scanEscape, scanHex, hzero, hexValue?_digitChar _ (by omega),
    hexValue?_digitChar _ (by omega)]
  simp only [bind, Except.bind, pure, Except.pure, hvalue, hhigh, hlow, Bool.false_eq_true,
    if_false, Char.ofNat_toNat]

theorem scanString_backslash {sofar : List Char} {c : Char} {s r : List Char}
    (h : scanEscape s = .ok ⟨some c, r⟩) :
    scanString (some sofar) ('\\' :: s) = scanString (some (c :: sofar)) r := by
  rw [scanString, if_neg (by decide), if_pos rfl]
  split
  · next e he =>
    obtain rfl := Except.ok.inj (he.symm.trans h)
    rfl
  · next f hf => cases hf.symm.trans h

/-- A character is read as it is written. -/
theorem scanString_escape (sofar : List Char) (c : Char) (r : List Char) :
    scanString (some sofar) (escape c ++ r) = scanString (some (c :: sofar)) r := by
  unfold escape
  split_ifs with hquote hslash hb ht hn hf hr hc
  · subst hquote
    exact scanString_backslash rfl
  · subst hslash
    exact scanString_backslash rfl
  · subst hb
    exact scanString_backslash rfl
  · subst ht
    exact scanString_backslash rfl
  · subst hn
    exact scanString_backslash rfl
  · subst hf
    exact scanString_backslash rfl
  · subst hr
    exact scanString_backslash rfl
  · exact scanString_backslash (scanEscape_control hc r)
  · rw [List.singleton_append, scanString, if_neg hquote, if_neg hslash, if_neg hc]
    rfl

theorem scanString_foldr (rest : List Char) : ∀ (cs sofar : List Char),
    scanString (some sofar) (cs.foldr (fun c r => escape c ++ r) ('"' :: rest)) =
      (.string (some (String.ofList (sofar.reverse ++ cs))), rest)
  | [], sofar => by
    rw [List.foldr_nil, scanString, if_pos rfl, List.append_nil]
    rfl
  | c :: cs, sofar => by
    rw [List.foldr_cons, scanString_escape, scanString_foldr rest cs, List.reverse_cons,
      List.append_assoc, List.singleton_append]

/-! ### Numbers -/

/-- Whether `rest` may follow a value: it is empty, or the items or members go on or end. -/
def Follows (rest : List Char) : Prop := ∀ c ∈ rest.head?, c = ',' ∨ c = ']' ∨ c = '\x7d'

theorem follows_nil : Follows [] := fun _ h => nomatch h

theorem follows_writeItems (vs : List Json) (rest : List Char) : Follows (writeItems vs rest) := by
  cases vs with
  | nil => rintro c ⟨⟩; exact .inr (.inl rfl)
  | cons v vs => rintro c ⟨⟩; exact .inl rfl

theorem follows_writeMembers (ms : List (String × Json)) (rest : List Char) :
    Follows (writeMembers ms rest) := by
  cases ms with
  | nil => rintro c ⟨⟩; exact .inr (.inr rfl)
  | cons m ms => rintro c ⟨⟩; exact .inl rfl

theorem Follows.cases {rest : List Char} (h : Follows rest) :
    rest = [] ∨ ∃ c r, rest = c :: r ∧ (c = ',' ∨ c = ']' ∨ c = '\x7d') := by
  cases rest with
  | nil => exact .inl rfl
  | cons c r => exact .inr ⟨c, r, rfl, h c rfl⟩

/-- Only zero is written with a leading zero. -/
theorem eq_zero_of_toDigits (n : Nat) :
    ∀ {ds : List Char}, Nat.toDigits 10 n = '0' :: ds → n = 0 := by
  induction n using Nat.strongRecOn with
  | _ n ih =>
    intro ds h
    rw [Nat.toDigits_eq_if (by decide)] at h
    split at h
    · next hn =>
      have : ∀ n < 10, Nat.digitChar n = '0' → n = 0 := by decide
      exact this n hn (List.cons.inj h).1
    · next hn =>
      -- a zero in front would be in front of the other digits
      obtain ⟨c, cs, hcs⟩ :=
        List.exists_cons_of_ne_nil (Nat.toDigits_ne_nil (n := n / 10) (b := 10))
      rw [hcs, List.cons_append] at h
      obtain rfl := (List.cons.inj h).1
      have := ih (n / 10) (by omega) hcs
      omega

theorem spanDigits_toDigits (n : Nat) {rest : List Char} (h : Follows rest) :
    spanDigits (Nat.toDigits 10 n ++ rest) = (Nat.toDigits 10 n, rest) := by
  have hdigits : ∀ c ∈ Nat.toDigits 10 n, c.isDigit :=
    fun c hc => Nat.isDigit_of_mem_toDigits (by decide) (by decide) hc
  have hstop : rest.takeWhile Char.isDigit = [] ∧ rest.dropWhile Char.isDigit = rest := by
    rcases h.cases with rfl | ⟨c, r, rfl, rfl | rfl | rfl⟩ <;> exact ⟨rfl, rfl⟩
  rw [spanDigits, List.takeWhile_append_of_pos hdigits, List.dropWhile_append_of_pos hdigits,
    hstop.1, hstop.2, List.append_nil]

theorem scanFraction_of_follows {ds rest : List Char} (h : Follows rest) :
    scanFraction false ds rest = (.number (.ofParts false ds none none), rest) := by
  rcases h.cases with rfl | ⟨c, r, rfl, rfl | rfl | rfl⟩ <;> rfl

/-- A natural number is read as it is written. -/
theorem scanNumber_toDigits {n : Nat} (hn : n < UInt64.size) {rest : List Char} (h : Follows rest) :
    scanNumber false (Nat.toDigits 10 n ++ rest) =
      (.number (.natural (UInt64.ofNat n)), rest) := by
  have hvalue : Numeral.ofParts false (Nat.toDigits 10 n) none none =
      .natural (UInt64.ofNat n) := by
    rw [Numeral.ofParts, Nat.ofDigitChars_ten_toDigits, if_pos ⟨rfl, rfl, rfl, hn⟩]
  rw [scanNumber, spanDigits_toDigits n h]
  split
  · next heq => exact absurd (Prod.mk.inj heq).1 Nat.toDigits_ne_nil
  · next heq => exact absurd (Prod.mk.inj heq).1 Nat.toDigits_ne_nil
  · next heq =>
    have hzero := (Prod.mk.inj heq).1
    rw [eq_zero_of_toDigits n hzero, Nat.toDigits_zero] at hzero
    cases hzero
  · next heq =>
    obtain ⟨rfl, rfl⟩ := Prod.mk.inj heq
    rw [scanFraction_of_follows h, hvalue]

/-! ### Values -/

mutual

/-- Whether all numbers of a value are below 2^64. -/
def Fits : Json → Prop
  | .null | .bool _ | .string _ => True
  | .natural n => n < UInt64.size
  | .array vs => FitsAll vs
  | .object ms => FitsMembers ms

def FitsAll : List Json → Prop
  | [] => True
  | v :: vs => Fits v ∧ FitsAll vs

def FitsMembers : List (String × Json) → Prop
  | [] => True
  | m :: ms => Fits m.2 ∧ FitsMembers ms

end

theorem scanToken_of_isDigit {c : Char} (h : c.isDigit) (r : List Char) :
    isBlank c = false ∧ scanToken c r = scanNumber false (c :: r) := by
  have hne : ∀ d : Char, d.isDigit = false → c ≠ d := by
    rintro d hd rfl
    exact absurd (h.symm.trans hd) (by decide)
  have hblank : isBlank c = false := by
    simp [isBlank, hne ' ' rfl, hne '\n' rfl, hne '\t' rfl, hne '\r' rfl]
  refine ⟨hblank, ?_⟩
  simp only [scanToken, hne '[' rfl, hne ']' rfl, hne '\x7b' rfl, hne '\x7d' rfl, hne ',' rfl,
    hne ':' rfl, hne '"' rfl, hne '-' rfl, if_false, if_pos h]

namespace Progress

theorem read_token (p : Progress) {c : Char} (r : List Char) (h : isBlank c = false) :
    p.read (c :: r) = (p.step (scanToken c r).1).read (scanToken c r).2 := by
  rw [read, if_neg (by rw [h]; decide)]

theorem read_writeString (p : Progress) (s : String) (rest : List Char) :
    p.read (writeString s rest) = (p.step (.string (some s))).read rest := by
  have hscan : scanToken '"' (s.toList.foldr (fun c r => escape c ++ r) ('"' :: rest)) =
      (.string (some s), rest) := by
    refine (scanString_foldr rest s.toList []).trans ?_
    rw [List.reverse_nil, List.nil_append, String.ofList_toList]
  rw [writeString, read_token p _ rfl, hscan]

theorem read_toDigits (p : Progress) {n : Nat} (hn : n < UInt64.size) {rest : List Char}
    (h : Follows rest) : p.read (Nat.toDigits 10 n ++ rest) =
      (p.step (.number (.natural (UInt64.ofNat n)))).read rest := by
  have hscan := scanNumber_toDigits hn h
  obtain ⟨c, cs, hcs⟩ := List.exists_cons_of_ne_nil (Nat.toDigits_ne_nil (n := n) (b := 10))
  have hdigit : c.isDigit :=
    Nat.isDigit_of_mem_toDigits (b := 10) (n := n) (by decide) (by decide) (by simp [hcs])
  obtain ⟨hblank, htoken⟩ := scanToken_of_isDigit hdigit (cs ++ rest)
  rw [hcs, List.cons_append] at hscan ⊢
  rw [read_token p _ hblank, htoken, hscan]

/-- A value at the start of an array is read as any other, as it does not begin with the end of the
array. -/
theorem read_first (outer : List Frame) (items : List Reading) {v : Json} {rest : List Char}
    (hv : v.Fits) (hrest : Follows rest) : (inArray outer items .first).read (v.write rest) =
      (value (.array items :: outer)).read (v.write rest) := by
  cases v with
  | null =>
    rw [write, read_token _ _ rfl, read_token _ _ rfl]
    rfl
  | bool b =>
    cases b <;> rw [write, read_token _ _ rfl, read_token _ _ rfl] <;> rfl
  | natural n =>
    rw [write, read_toDigits _ hv hrest, read_toDigits _ hv hrest]
    rfl
  | string s =>
    rw [write, read_writeString, read_writeString]
    rfl
  | array vs =>
    cases vs <;> rw [write, read_token _ _ rfl, read_token _ _ rfl] <;> rfl
  | object ms =>
    cases ms <;> rw [write, read_token _ _ rfl, read_token _ _ rfl] <;> rfl

mutual

/-- A value is read as it is written. -/
theorem read_write (outer : List Frame) : ∀ (v : Json) {rest : List Char}, v.Fits → Follows rest →
    (value outer).read (v.write rest) = (deliver v.toReading outer).read rest
  | .null, rest, _, _ => by
    rw [write, read_token _ _ rfl]
    rfl
  | .bool true, rest, _, _ => by
    rw [write, read_token _ _ rfl]
    rfl
  | .bool false, rest, _, _ => by
    rw [write, read_token _ _ rfl]
    rfl
  | .natural n, rest, hn, hrest => by
    rw [write, read_toDigits _ hn hrest]
    rfl
  | .string s, rest, _, _ => by
    rw [write, read_writeString]
    rfl
  | .array [], rest, _, _ => by
    rw [write, read_token _ _ rfl]
    change (inArray outer [] .first).read (']' :: rest) = _
    rw [read_token _ _ rfl]
    rfl
  | .array (v :: vs), rest, hv, _ => by
    rw [write, read_token _ _ rfl]
    change (inArray outer [] .first).read (v.write (writeItems vs rest)) = _
    have hrest := follows_writeItems vs rest
    rw [read_first _ _ hv.1 hrest, read_write _ v hv.1 hrest]
    exact read_writeItems outer vs [v.toReading] hv.2
  | .object [], rest, _, _ => by
    rw [write, read_token _ _ rfl]
    change (inObject outer [] .first).read ('\x7d' :: rest) = _
    rw [read_token _ _ rfl]
    rfl
  | .object ((k, v) :: ms), rest, hv, _ => by
    rw [write, read_token _ _ rfl]
    change (inObject outer [] .first).read
      (writeString k (':' :: v.write (writeMembers ms rest))) = _
    rw [read_writeString]
    change (colon outer [] (some k)).read (':' :: v.write (writeMembers ms rest)) = _
    rw [read_token _ _ rfl]
    change (value (.member [] (some k) :: outer)).read (v.write (writeMembers ms rest)) = _
    rw [read_write _ v hv.1 (follows_writeMembers ms rest)]
    exact read_writeMembers outer ms [(some k, v.toReading)] hv.2

theorem read_writeItems (outer : List Frame) : ∀ (vs : List Json) (items : List Reading)
    {rest : List Char}, FitsAll vs → (inArray outer items .afterItem).read (writeItems vs rest) =
      (deliver (.array (items.reverse ++ toReadings vs) none) outer).read rest
  | [], items, rest, _ => by
    rw [writeItems, read_token _ _ rfl, toReadings, List.append_nil]
    rfl
  | v :: vs, items, rest, hv => by
    rw [writeItems, read_token _ _ rfl]
    change (value (.array items :: outer)).read (v.write (writeItems vs rest)) = _
    rw [read_write _ v hv.1 (follows_writeItems vs rest)]
    refine (read_writeItems outer vs (v.toReading :: items) hv.2).trans ?_
    rw [List.reverse_cons, List.append_assoc, toReadings, List.singleton_append]

theorem read_writeMembers (outer : List Frame) : ∀ (ms : List (String × Json)) (members : Members)
    {rest : List Char}, FitsMembers ms →
      (inObject outer members .afterMember).read (writeMembers ms rest) =
        (deliver (.object (members.reverse ++ toMembers ms) none) outer).read rest
  | [], members, rest, _ => by
    rw [writeMembers, read_token _ _ rfl, toMembers, List.append_nil]
    rfl
  | (k, v) :: ms, members, rest, hv => by
    rw [writeMembers, read_token _ _ rfl]
    change (inObject outer members .key).read
      (writeString k (':' :: v.write (writeMembers ms rest))) = _
    rw [read_writeString]
    change (colon outer members (some k)).read (':' :: v.write (writeMembers ms rest)) = _
    rw [read_token _ _ rfl]
    change (value (.member members (some k) :: outer)).read (v.write (writeMembers ms rest)) = _
    rw [read_write _ v hv.1 (follows_writeMembers ms rest)]
    refine (read_writeMembers outer ms ((some k, v.toReading) :: members) hv.2).trans ?_
    rw [List.reverse_cons, List.append_assoc, toMembers, List.singleton_append]

end

end Progress

/-- The short form of a value gives the value back, with nothing behind it. -/
theorem ofText_compact {v : Json} (h : v.Fits) :
    Document.ofText v.compact.toList = ⟨v.toReading, false⟩ := by
  rw [Document.ofText, compact, String.toList_ofList, Progress.read_write [] v h follows_nil,
    Progress.deliver, Progress.read]
  rfl

end Sema.Json
