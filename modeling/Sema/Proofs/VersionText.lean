import Mathlib.Data.List.Induction
import Mathlib.Data.Nat.Digits.Defs
import Sema.Proofs.JsonText
import Sema.Version

/-!
Version texts. A text is read exactly if it is three numbers with a dot between each and the next. A
number may be padded with zeros; rendering does not pad, so it gives a text back unless a number of it
is padded.
-/

namespace Sema.Version

/-! ### Numbers -/

/-- The number that digits denote: each counts for the power of ten that belongs to its place. -/
def value (ds : List Char) : Nat := Nat.ofDigits 10 (ds.reverse.map fun c => c.toNat - '0'.toNat)

/-- Whether a text denotes a word: ASCII digits, at least one, for a number below 2^32. -/
structure Denotes (ds : List Char) (n : UInt32) : Prop where
  ne_nil : ds ≠ []
  isDigit : ∀ c ∈ ds, c.isDigit
  value_eq : value ds = n.toNat

/-- Whether a number has a zero in front that it could do without. -/
def Padded (ds : List Char) : Prop := ∃ d r, ds = '0' :: d :: r

theorem value_append_singleton (ds : List Char) (d : Char) :
    value (ds ++ [d]) = 10 * value ds + (d.toNat - '0'.toNat) := by
  simp [value, Nat.ofDigits_cons, Nat.add_comm]

theorem ofDigitChars_eq_value (ds : List Char) : Nat.ofDigitChars 10 ds 0 = value ds := by
  induction ds using List.reverseRecOn with
  | nil => rfl
  | append_singleton ds d ih =>
    rw [Nat.ofDigitChars_append, ih, Nat.ofDigitChars_cons, Nat.ofDigitChars_nil,
      value_append_singleton]

theorem not_padded_toDigits (n : Nat) : ¬ Padded (Nat.toDigits 10 n) := by
  rintro ⟨d, r, h⟩
  rw [Json.eq_zero_of_toDigits n h, Nat.toDigits_zero] at h
  cases h

theorem toDigits_of_isDigit {d : Char} (h : d.isDigit) :
    d.toNat - '0'.toNat < 10 ∧ Nat.toDigits 10 (d.toNat - '0'.toNat) = [d] := by
  have hbounds : 48 ≤ d.toNat ∧ d.toNat ≤ 57 := by
    simpa [Char.isDigit, UInt32.le_iff_toNat_le] using h
  have hzero : '0'.toNat = 48 := rfl
  have hlt : d.toNat - '0'.toNat < 10 := by omega
  have hchar : ∀ n < 10, Nat.digitChar n = Char.ofNat (n + 48) := by decide
  refine ⟨hlt, ?_⟩
  rw [Nat.toDigits_of_lt_base hlt, hchar _ hlt, hzero, Nat.sub_add_cancel hbounds.1,
    Char.ofNat_toNat]

/-- A number that is not padded is written as it stands. -/
theorem toDigits_value {ds : List Char} (hne : ds ≠ []) (hdigit : ∀ c ∈ ds, c.isDigit)
    (hpad : ¬ Padded ds) : Nat.toDigits 10 (value ds) = ds := by
  induction ds using List.reverseRecOn with
  | nil => exact absurd rfl hne
  | append_singleton ds d ih =>
    obtain ⟨hlt, hd⟩ := toDigits_of_isDigit (hdigit d (by simp))
    rw [value_append_singleton]
    by_cases hds : ds = []
    · subst hds
      simpa [value] using hd
    · have hinit : Nat.toDigits 10 (value ds) = ds := by
        refine ih hds (fun c hc => hdigit c (List.mem_append_left _ hc)) ?_
        rintro ⟨x, r, rfl⟩
        exact hpad ⟨x, r ++ [d], rfl⟩
      have hpos : 0 < value ds := by
        -- a zero in front of the last digit would be padding
        by_contra hzero
        rw [Nat.eq_zero_of_not_pos hzero, Nat.toDigits_zero] at hinit
        exact hpad ⟨d, [], by rw [← hinit]; rfl⟩
      rw [← Nat.toDigits_append_toDigits (by decide) hpos hlt, hinit, hd]

theorem denotes_toDigits (n : UInt32) : Denotes (Nat.toDigits 10 n.toNat) n where
  ne_nil := Nat.toDigits_ne_nil
  isDigit _ hc := Nat.isDigit_of_mem_toDigits (by decide) (by decide) hc
  value_eq := by rw [← ofDigitChars_eq_value, Nat.ofDigitChars_ten_toDigits]

namespace Denotes

variable {ds : List Char} {n : UInt32}

theorem dot_not_mem (h : Denotes ds n) : '.' ∉ ds := fun hmem =>
  absurd (h.isDigit _ hmem) (by decide)

theorem toDigits_eq_iff (h : Denotes ds n) : Nat.toDigits 10 n.toNat = ds ↔ ¬ Padded ds := by
  constructor
  · rintro rfl
    exact not_padded_toDigits _
  · intro hpad
    rw [← h.value_eq, toDigits_value h.ne_nil h.isDigit hpad]

end Denotes

theorem part?_eq_some_iff {ds : List Char} {n : UInt32} : part? ds = some n ↔ Denotes ds n := by
  rw [part?, ofDigitChars_eq_value]
  constructor
  · intro h
    split at h
    · next hds =>
      obtain ⟨hne, hdigit, hlt⟩ := hds
      obtain rfl := Option.some.inj h
      exact ⟨hne, List.all_eq_true.mp hdigit, (UInt32.toNat_ofNat_of_lt hlt).symm⟩
    · cases h
  · intro h
    have hlt : value ds < UInt32.size := h.value_eq ▸ n.toNat_lt_size
    rw [if_pos ⟨h.ne_nil, List.all_eq_true.mpr h.isDigit, hlt⟩, h.value_eq, UInt32.ofNat_toNat]

/-! ### Texts -/

/-- Whether a text is written as the numbers of a version, in these digits, with a dot between each
and the next. -/
structure Spells (v : Version) (text : String) (a b c : List Char) : Prop where
  text_eq : text.toList = a ++ '.' :: (b ++ '.' :: c)
  major : Denotes a v.major
  minor : Denotes b v.minor
  patch : Denotes c v.patch

theorem toList_render (v : Version) : v.render.toList = Nat.toDigits 10 v.major.toNat ++ '.' ::
    (Nat.toDigits 10 v.minor.toNat ++ '.' :: Nat.toDigits 10 v.patch.toNat) := by
  simp [render, Nat.toList_repr]

theorem spells_render (v : Version) : v.Spells v.render (Nat.toDigits 10 v.major.toNat)
    (Nat.toDigits 10 v.minor.toNat) (Nat.toDigits 10 v.patch.toNat) :=
  ⟨v.toList_render, denotes_toDigits _, denotes_toDigits _, denotes_toDigits _⟩

variable {text : String} {v : Version} {a b c : List Char}

theorem Spells.split_eq (h : v.Spells text a b c) : Text.split '.' text.toList = [a, b, c] := by
  rw [h.text_eq, Text.split_append_cons h.major.dot_not_mem,
    Text.split_append_cons h.minor.dot_not_mem, Text.split_of_not_mem h.patch.dot_not_mem]

/-- What is rendered is the text exactly if no number of it is padded. -/
theorem Spells.render_eq_iff (h : v.Spells text a b c) :
    v.render = text ↔ ¬ Padded a ∧ ¬ Padded b ∧ ¬ Padded c := by
  rw [← h.major.toDigits_eq_iff, ← h.minor.toDigits_eq_iff, ← h.patch.toDigits_eq_iff]
  constructor
  · rintro rfl
    have hparts := v.spells_render.split_eq.symm.trans h.split_eq
    simpa using hparts
  · rintro ⟨ha, hb, hc⟩
    rw [← String.toList_inj, toList_render, ha, hb, hc, h.text_eq]

theorem parse?_eq_some_iff : parse? text = some v ↔ ∃ a b c, v.Spells text a b c := by
  constructor
  · intro h
    rw [parse?] at h
    split at h
    · next a b c hsplit =>
      simp only [Option.bind_eq_bind, Option.bind_eq_some_iff, Option.pure_def,
        Option.some.injEq] at h
      obtain ⟨major, ha, minor, hb, patch, hc, rfl⟩ := h
      have hjoin := Text.join_split '.' text.toList
      rw [hsplit] at hjoin
      exact ⟨a, b, c, hjoin.symm, part?_eq_some_iff.mp ha, part?_eq_some_iff.mp hb,
        part?_eq_some_iff.mp hc⟩
    · cases h
  · rintro ⟨a, b, c, h⟩
    rw [parse?, h.split_eq]
    dsimp only
    rw [part?_eq_some_iff.mpr h.major, part?_eq_some_iff.mpr h.minor,
      part?_eq_some_iff.mpr h.patch]
    rfl

/-- Reading accepts three numbers with a dot between each and the next, and gives exactly these; it
reads what is rendered; and what it reads is rendered as it was exactly if no number is padded. -/
theorem parse?_exact :
    (∀ text v, parse? text = some v ↔ ∃ a b c, v.Spells text a b c) ∧
    (∀ v, parse? v.render = some v) ∧
    (∀ text v, parse? text = some v → ∃ a b c, v.Spells text a b c ∧
      (v.render = text ↔ ¬ Padded a ∧ ¬ Padded b ∧ ¬ Padded c)) := by
  refine ⟨fun text v => parse?_eq_some_iff, fun v => ?_, fun text v h => ?_⟩
  · exact parse?_eq_some_iff.mpr ⟨_, _, _, v.spells_render⟩
  · obtain ⟨a, b, c, hspells⟩ := parse?_eq_some_iff.mp h
    exact ⟨a, b, c, hspells, hspells.render_eq_iff⟩

theorem padded_exact : parse? "1.002.4294967295" = some ⟨1, 2, 4294967295⟩ ∧
    ∃ a b c, Spells ⟨1, 2, 4294967295⟩ "1.002.4294967295" a b c ∧
      (render ⟨1, 2, 4294967295⟩ = "1.002.4294967295" ↔ ¬ Padded a ∧ ¬ Padded b ∧ ¬ Padded c) := by
  have h : parse? "1.002.4294967295" = some ⟨1, 2, 4294967295⟩ := by decide
  exact ⟨h, parse?_exact.2.2 _ _ h⟩

example : parse? "1.2.4294967296" = none := by decide

end Sema.Version
