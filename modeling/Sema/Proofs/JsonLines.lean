import Sema.Proofs.JsonText

/-!
The form in lines tells a JSON value: no two values are written alike. A value is told from the others
by its first character, and where it ends by what its own characters are, so whatever is written behind
it is told as well.
-/

namespace Sema.Json

/-! ### Numbers and strings -/

/-- Whether a text does not go on with a digit. -/
def Stops (rest : List Char) : Prop := ∀ c ∈ rest.head?, c.isDigit = false

theorem stops_nil : Stops [] := fun _ h => nomatch h

theorem stops_cons {c : Char} (h : c.isDigit = false) (rest : List Char) : Stops (c :: rest) := by
  rintro _ ⟨⟩
  exact h

theorem takeWhile_toDigits (n : Nat) {rest : List Char} (h : Stops rest) :
    (Nat.toDigits 10 n ++ rest).takeWhile Char.isDigit = Nat.toDigits 10 n := by
  have hdigits : ∀ c ∈ Nat.toDigits 10 n, c.isDigit :=
    fun c hc => Nat.isDigit_of_mem_toDigits (by decide) (by decide) hc
  have hrest : rest.takeWhile Char.isDigit = [] := by
    cases rest with
    | nil => rfl
    | cons c rest => rw [List.takeWhile_cons, h c rfl, if_neg Bool.false_ne_true]
  rw [List.takeWhile_append_of_pos hdigits, hrest, List.append_nil]

theorem toDigits_injective {m n : Nat} (h : Nat.toDigits 10 m = Nat.toDigits 10 n) : m = n := by
  rw [← Nat.ofDigitChars_ten_toDigits (n := m), h, Nat.ofDigitChars_ten_toDigits]

theorem toDigits_append_inj {m n : Nat} {rest rest' : List Char} (hr : Stops rest)
    (hr' : Stops rest') (h : Nat.toDigits 10 m ++ rest = Nat.toDigits 10 n ++ rest') :
    m = n ∧ rest = rest' := by
  have hdigits := congrArg (List.takeWhile Char.isDigit) h
  rw [takeWhile_toDigits m hr, takeWhile_toDigits n hr'] at hdigits
  rw [hdigits] at h
  exact ⟨toDigits_injective hdigits, List.append_cancel_left h⟩

theorem repr_injective {m n : Nat} (h : Nat.repr m = Nat.repr n) : m = n := by
  rw [Nat.repr, Nat.repr, String.ofList_inj] at h
  exact toDigits_injective h

theorem writeString_inj {s t : String} {rest rest' : List Char}
    (h : writeString s rest = writeString t rest') : s = t ∧ rest = rest' := by
  have hscan := congrArg (scanString (some [])) (List.cons.inj h).2
  rw [scanString_foldr, scanString_foldr, Prod.mk.injEq] at hscan
  obtain ⟨htoken, hrest⟩ := hscan
  simp only [List.reverse_nil, List.nil_append, String.ofList_toList, Token.string.injEq,
    Option.some.injEq] at htoken
  exact ⟨htoken, hrest⟩

theorem newline_inj {n : Nat} {rest rest' : List Char} (h : newline n rest = newline n rest') :
    rest = rest' :=
  List.append_cancel_left (List.cons.inj h).2

/-! ### First characters -/

/-- What kind of value a character begins. -/
inductive Kind where
  | null
  | bool (value : Bool)
  | natural
  | string
  | array
  | object
deriving DecidableEq

def kind : Json → Kind
  | .null => .null
  | .bool b => .bool b
  | .natural _ => .natural
  | .string _ => .string
  | .array _ => .array
  | .object _ => .object

def Kind.ofFirst (c : Char) : Kind :=
  if c.isDigit then .natural
  else if c = '"' then .string
  else if c = '[' then .array
  else if c = '\x7b' then .object
  else if c = 't' then .bool true
  else if c = 'f' then .bool false
  else .null

/-- The first character of a value tells its kind. -/
theorem kind_of_first (n : Nat) (v : Json) (rest : List Char) :
    (writeLines n v rest).head?.map Kind.ofFirst = some v.kind := by
  cases v with
  | null => rfl
  | bool b => cases b <;> rfl
  | natural k =>
    obtain ⟨c, cs, hcs⟩ := List.exists_cons_of_ne_nil (Nat.toDigits_ne_nil (n := k) (b := 10))
    have hdigit : c.isDigit :=
      Nat.isDigit_of_mem_toDigits (b := 10) (n := k) (by decide) (by decide) (by simp [hcs])
    rw [writeLines, write, hcs, List.cons_append, List.head?_cons, Option.map_some, Kind.ofFirst,
      if_pos hdigit]
    rfl
  | string s => rfl
  | array vs => cases vs <;> rfl
  | object ms => cases ms <;> rfl

theorem kind_eq_of_writeLines {n : Nat} {v w : Json} {rest rest' : List Char}
    (h : writeLines n v rest = writeLines n w rest') : v.kind = w.kind := by
  have hfirst := congrArg (fun s : List Char => s.head?.map Kind.ofFirst) h
  simpa only [kind_of_first, Option.some.injEq] using hfirst

theorem stops_writeItemLines (n : Nat) (vs : List Json) (rest : List Char) :
    Stops (writeItemLines n vs rest) := by
  cases vs <;> exact stops_cons rfl _

theorem stops_writeMemberLines (n : Nat) (ms : List (String × Json)) (rest : List Char) :
    Stops (writeMemberLines n ms rest) := by
  cases ms <;> exact stops_cons rfl _

/-! ### Values -/

mutual

/-- Values that are written alike are the same, and so is what is written behind them. -/
theorem writeLines_inj (n : Nat) : ∀ (v w : Json) {rest rest' : List Char}, Stops rest →
    Stops rest' → writeLines n v rest = writeLines n w rest' → v = w ∧ rest = rest'
  | .null, w, rest, rest', _, _, h => by
    have hkind := kind_eq_of_writeLines h
    cases w with
    | null => exact ⟨rfl, @List.append_cancel_left _ ['n', 'u', 'l', 'l'] _ _ h⟩
    | _ => cases hkind
  | .bool b, w, rest, rest', _, _, h => by
    have hkind := kind_eq_of_writeLines h
    cases w with
    | bool c =>
      obtain rfl := Kind.bool.inj hkind
      cases b with
      | true => exact ⟨rfl, @List.append_cancel_left _ ['t', 'r', 'u', 'e'] _ _ h⟩
      | false => exact ⟨rfl, @List.append_cancel_left _ ['f', 'a', 'l', 's', 'e'] _ _ h⟩
    | _ => cases hkind
  | .natural k, w, rest, rest', hr, hr', h => by
    have hkind := kind_eq_of_writeLines h
    cases w with
    | natural l =>
      obtain ⟨rfl, hrest⟩ := toDigits_append_inj hr hr' h
      exact ⟨rfl, hrest⟩
    | _ => cases hkind
  | .string s, w, rest, rest', _, _, h => by
    have hkind := kind_eq_of_writeLines h
    cases w with
    | string t =>
      obtain ⟨rfl, hrest⟩ := writeString_inj h
      exact ⟨rfl, hrest⟩
    | _ => cases hkind
  | .array vs, w, rest, rest', _, _, h => by
    have hkind := kind_eq_of_writeLines h
    cases w with
    | array ws =>
      -- an empty array ends at once, any other goes on with a line
      cases vs with
      | nil =>
        cases ws with
        | nil => exact ⟨rfl, @List.append_cancel_left _ ['[', ']'] _ _ h⟩
        | cons w ws => exact absurd (List.cons.inj (List.cons.inj h).2).1 (by decide)
      | cons v vs =>
        cases ws with
        | nil => exact absurd (List.cons.inj (List.cons.inj h).2).1 (by decide)
        | cons w ws =>
          obtain ⟨rfl, htail⟩ := writeLines_inj (n + 1) v w (stops_writeItemLines n vs rest)
            (stops_writeItemLines n ws rest') (newline_inj (List.cons.inj h).2)
          obtain ⟨rfl, hrest⟩ := writeItemLines_inj n vs ws htail
          exact ⟨rfl, hrest⟩
    | _ => cases hkind
  | .object ms, w, rest, rest', _, _, h => by
    have hkind := kind_eq_of_writeLines h
    cases w with
    | object ns =>
      cases ms with
      | nil =>
        cases ns with
        | nil => exact ⟨rfl, @List.append_cancel_left _ ['\x7b', '\x7d'] _ _ h⟩
        | cons m ns => exact absurd (List.cons.inj (List.cons.inj h).2).1 (by decide)
      | cons m ms =>
        obtain ⟨k, v⟩ := m
        cases ns with
        | nil => exact absurd (List.cons.inj (List.cons.inj h).2).1 (by decide)
        | cons m ns =>
          obtain ⟨l, w⟩ := m
          obtain ⟨rfl, hvalue⟩ := writeString_inj (newline_inj (List.cons.inj h).2)
          obtain ⟨rfl, htail⟩ := writeLines_inj (n + 1) v w (stops_writeMemberLines n ms rest)
            (stops_writeMemberLines n ns rest') (@List.append_cancel_left _ [':', ' '] _ _ hvalue)
          obtain ⟨rfl, hrest⟩ := writeMemberLines_inj n ms ns htail
          exact ⟨rfl, hrest⟩
    | _ => cases hkind

theorem writeItemLines_inj (n : Nat) : ∀ (vs ws : List Json) {rest rest' : List Char},
    writeItemLines n vs rest = writeItemLines n ws rest' → vs = ws ∧ rest = rest'
  | [], [], rest, rest', h => ⟨rfl, (List.cons.inj (newline_inj h)).2⟩
  | [], w :: ws, rest, rest', h => absurd (List.cons.inj h).1 (by decide)
  | v :: vs, [], rest, rest', h => absurd (List.cons.inj h).1 (by decide)
  | v :: vs, w :: ws, rest, rest', h => by
    obtain ⟨rfl, htail⟩ := writeLines_inj (n + 1) v w (stops_writeItemLines n vs rest)
      (stops_writeItemLines n ws rest') (newline_inj (List.cons.inj h).2)
    obtain ⟨rfl, hrest⟩ := writeItemLines_inj n vs ws htail
    exact ⟨rfl, hrest⟩

theorem writeMemberLines_inj (n : Nat) : ∀ (ms ns : List (String × Json)) {rest rest' : List Char},
    writeMemberLines n ms rest = writeMemberLines n ns rest' → ms = ns ∧ rest = rest'
  | [], [], rest, rest', h => ⟨rfl, (List.cons.inj (newline_inj h)).2⟩
  | [], _ :: ns, rest, rest', h => absurd (List.cons.inj h).1 (by decide)
  | _ :: ms, [], rest, rest', h => absurd (List.cons.inj h).1 (by decide)
  | (k, v) :: ms, (l, w) :: ns, rest, rest', h => by
    obtain ⟨rfl, hvalue⟩ := writeString_inj (newline_inj (List.cons.inj h).2)
    obtain ⟨rfl, htail⟩ := writeLines_inj (n + 1) v w (stops_writeMemberLines n ms rest)
      (stops_writeMemberLines n ns rest') (@List.append_cancel_left _ [':', ' '] _ _ hvalue)
    obtain ⟨rfl, hrest⟩ := writeMemberLines_inj n ms ns htail
    exact ⟨rfl, hrest⟩

end

/-- No two values are written alike. -/
theorem pretty_injective {v w : Json} (h : v.pretty = w.pretty) : v = w :=
  (writeLines_inj 0 v w stops_nil stops_nil (String.ofList_inj.mp h)).1

end Sema.Json
