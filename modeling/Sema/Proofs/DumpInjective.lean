import Mathlib.Data.List.Basic
import Sema.Analysis.Dump
import Sema.Proofs.Erroneous
import Sema.Proofs.Interning
import Sema.Proofs.JsonLines

/-!
The dump of an analysis leaves nothing out: what it shows can be told from the text alone. The maps of
names and of pointers are not shown, but the entries tell them, since the table is well formed: a
pointer's name even tells whether it allows writing. Notes are shown by increasing node id, which is no
loss where no node has two.
-/

namespace Sema

open Json (natural string array object)

/-! ### Parts of a dump -/

theorem Json.ofOption_injective {α : Type} {f : α → Json} (hf : Function.Injective f)
    (hnull : ∀ x, f x ≠ .null) : Function.Injective (Json.ofOption f)
  | none, none, _ => rfl
  | none, some x, h => absurd h.symm (hnull x)
  | some x, none, h => absurd h (hnull x)
  | some _, some _, h => congrArg some (hf h)

theorem TypeId.toJson_injective : Function.Injective TypeId.toJson := by
  rintro ⟨i⟩ ⟨j⟩ h
  exact congrArg TypeId.mk (Json.natural.inj h)

theorem NodeId.toJson_injective : Function.Injective NodeId.toJson := by
  rintro ⟨m⟩ ⟨n⟩ h
  exact congrArg NodeId.mk (UInt32.toNat_inj.mp (Json.natural.inj h))

theorem Position.toJson_injective : Function.Injective Position.toJson := by
  rintro ⟨line, column, offset⟩ ⟨line', column', offset'⟩ h
  simp only [toJson, Json.object.injEq, List.cons.injEq, Prod.mk.injEq, Json.natural.injEq,
    UInt32.toNat_inj, true_and, and_true] at h
  obtain ⟨rfl, rfl, rfl⟩ := h
  rfl

theorem Diagnostic.toJson_injective : Function.Injective Diagnostic.toJson := by
  rintro ⟨file, start, message⟩ ⟨file', start', message'⟩ h
  simp only [toJson, Json.object.injEq, List.cons.injEq, Prod.mk.injEq, Json.string.injEq,
    Position.toJson_injective.eq_iff, true_and, and_true] at h
  obtain ⟨rfl, rfl, rfl⟩ := h
  rfl

theorem Version.toJson_injective : Function.Injective Version.toJson := by
  rintro ⟨major, minor, patch⟩ ⟨major', minor', patch'⟩ h
  simp only [toJson, Json.object.injEq, List.cons.injEq, Prod.mk.injEq, Json.natural.injEq,
    UInt32.toNat_inj, true_and, and_true] at h
  obtain ⟨rfl, rfl, rfl⟩ := h
  rfl

theorem OutputKind.toJson_injective : Function.Injective OutputKind.toJson := by
  intro k l h
  have hword := congrArg OutputKind.ofWord? (Json.string.inj h)
  rw [ofWord?_word, ofWord?_word] at hword
  exact Option.some.inj hword

theorem Output.toJson_injective : Function.Injective Output.toJson := by
  rintro ⟨kind, name, version, decl⟩ ⟨kind', name', version', decl'⟩ h
  simp only [toJson, Json.object.injEq, List.cons.injEq, Prod.mk.injEq, true_and, and_true] at h
  obtain ⟨hkind, hname, hversion, hdecl⟩ := h
  rw [Json.ofOption_injective OutputKind.toJson_injective (fun _ => nofun) hkind,
    Json.ofOption_injective (fun _ _ => Json.string.inj) (fun _ => nofun) hname,
    Json.ofOption_injective Version.toJson_injective (fun _ => nofun) hversion,
    Json.ofOption_injective NodeId.toJson_injective (fun _ => nofun) hdecl]

theorem Note.toJson_injective : Function.Injective Note.toJson := by
  intro x y h
  cases x <;> cases y <;>
    simp only [toJson, Json.object.injEq, List.cons.injEq, Prod.mk.injEq, Json.string.injEq,
      Json.bool.injEq, TypeId.toJson_injective.eq_iff, true_and, and_true] at h
  case typeRef.typeRef => rw [h]
  case expr.expr => rw [h]
  case fnDef.fnDef =>
    obtain ⟨rfl, htype⟩ := h
    rw [Json.ofOption_injective TypeId.toJson_injective (fun _ => nofun) htype]
  all_goals simp at h

/-! ### Tables -/

theorem Shape.toJson_injective : Function.Injective Shape.toJson := by
  intro x y h
  cases x <;> cases y <;>
    simp only [toJson, Json.object.injEq, List.cons.injEq, Prod.mk.injEq, Json.string.injEq,
      Json.natural.injEq, Json.bool.injEq, TypeId.toJson_injective.eq_iff, true_and, and_true] at h
  case void.void => rfl
  case empty.empty => rfl
  case int.int =>
    obtain ⟨rfl, rfl⟩ := h
    rfl
  case pointer.pointer => rw [h]
  all_goals simp at h

theorem TypeEntry.toJson_injective : Function.Injective TypeEntry.toJson := by
  rintro ⟨name, shape⟩ ⟨name', shape'⟩ h
  simp only [toJson, Json.object.injEq, List.cons.injEq, Prod.mk.injEq, Json.string.injEq,
    Shape.toJson_injective.eq_iff, true_and, and_true] at h
  obtain ⟨rfl, rfl⟩ := h
  rfl

namespace TypeTable

variable {t u : TypeTable}

theorem LatestFirst.nodup {κ : Type} {l : List (κ × TypeId)} (h : LatestFirst l) : l.Nodup := by
  refine h.imp fun hlt => ?_
  rintro rfl
  exact lt_irrefl _ hlt

/-- Maps that bind the same are the same list, since both stand in the order of their handles. -/
theorem LatestFirst.eq_of_mem_iff {κ : Type} {l r : List (κ × TypeId)} (hl : LatestFirst l)
    (hr : LatestFirst r) (h : ∀ x, x ∈ l ↔ x ∈ r) : l = r := by
  have hperm := (List.perm_ext_iff_of_nodup hl.nodup hr.nodup).mpr h
  exact hperm.eq_of_pairwise (fun _ _ _ _ hxy hyx => absurd hxy (lt_asymm hyx)) hl hr

/-- The entries tell the rest of a table. -/
theorem WellFormed.eq_of_entries (ht : t.WellFormed) (hu : u.WellFormed)
    (h : t.entries = u.entries) : t = u := by
  have hget : ∀ i, t.get? i = u.get? i := fun i => by rw [get?, get?, h]
  have hbyName : t.byName = u.byName := by
    refine ht.namesLatestFirst.eq_of_mem_iff hu.namesLatestFirst ?_
    rintro ⟨name, i⟩
    rw [ht.named, hu.named, name?, name?, hget]
  have hpointers : t.pointers = u.pointers := by
    refine ht.pointersLatestFirst.eq_of_mem_iff hu.pointersLatestFirst ?_
    rintro ⟨⟨c, m⟩, i⟩
    rw [ht.pointed, hu.pointed, hget]
  rw [mk.injEq, NamedEntries.mk.injEq]
  exact ⟨⟨h, hbyName⟩, hpointers, ht.builtins.trans hu.builtins.symm⟩

theorem WellFormed.eq_of_toJson (ht : t.WellFormed) (hu : u.WellFormed)
    (h : t.toJson = u.toJson) : t = u := by
  simp only [toJson, Json.object.injEq, List.cons.injEq, Prod.mk.injEq, Json.array.injEq,
    true_and, and_true] at h
  exact ht.eq_of_entries hu (List.map_injective_iff.mpr TypeEntry.toJson_injective h.1)

end TypeTable

namespace Notes

variable {t u : Notes}

theorem toSortedList_perm (t : Notes) : t.toSortedList.Perm t.slots := List.mergeSort_perm _ _

theorem slots_perm_of_toJson (h : t.toJson = u.toJson) : t.slots.Perm u.slots := by
  have hitem : Function.Injective fun x : NodeId × Note =>
      (Nat.repr x.1.value.toNat, x.2.toJson) := by
    rintro ⟨⟨m⟩, x⟩ ⟨⟨n⟩, y⟩ hxy
    obtain ⟨hid, hnote⟩ := Prod.mk.inj hxy
    obtain rfl : m = n := UInt32.toNat_inj.mp (Json.repr_injective hid)
    obtain rfl : x = y := Note.toJson_injective hnote
    rfl
  have hsorted : t.toSortedList = u.toSortedList :=
    List.map_injective_iff.mpr hitem (Json.object.inj h)
  exact t.toSortedList_perm.symm.trans (hsorted ▸ u.toSortedList_perm)

/-- Notes in another order are the same where no node has two. -/
theorem get?_eq_of_perm (ht : t.Distinct) (hu : u.Distinct) (h : t.slots.Perm u.slots)
    (n : NodeId) : t.get? n = u.get? n :=
  Option.ext fun _ =>
    ⟨fun hx => get?_of_mem_slots hu (h.mem_iff.mp (mem_slots_of_get? hx)),
      fun hx => get?_of_mem_slots ht (h.mem_iff.mpr (mem_slots_of_get? hx))⟩

end Notes

/-! ### Whole analyses -/

namespace Program

variable {p q : Program} {options options' : BuildOptions} {a b : Analysis}

theorem distinct_notes (h : p.analyze options = .ok a) : a.notes.Distinct := by
  obtain ⟨s, notes, hs, hnotes, -, rfl⟩ := analyze_eq_ok_iff.mp h
  exact (Notes.recordedAll hnotes).distinct (signatures_ok hs).1.sound.distinct

/-- Analyses with one dump have the same types, notes, libraries and diagnostics, and tell the same of
the artifact. Their tables of types go on to give the same answers. -/
theorem eq_of_dump_eq (ha : p.analyze options = .ok a) (hb : q.analyze options' = .ok b)
    (h : a.dump = b.dump) :
    a.types = b.types ∧
    a.notes.slots.Perm b.notes.slots ∧ (∀ n, a.notes.get? n = b.notes.get? n) ∧
    a.output = b.output ∧ a.libraries = b.libraries ∧ a.diagnostics = b.diagnostics ∧
    (∀ name, a.types.lookup? name = b.types.lookup? name) ∧
    ∀ requests, a.types.answer? requests = b.types.answer? requests := by
  have hjson := Json.pretty_injective h
  simp only [Analysis.toJson, Json.object.injEq, List.cons.injEq, Prod.mk.injEq,
    Json.array.injEq, true_and, and_true] at hjson
  obtain ⟨htypes, hnotes, houtput, hlibraries, hdiagnostics⟩ := hjson
  have htypes := (wellFormed_types ha).eq_of_toJson (wellFormed_types hb) htypes
  have hperm := Notes.slots_perm_of_toJson hnotes
  refine ⟨htypes, hperm, Notes.get?_eq_of_perm (distinct_notes ha) (distinct_notes hb) hperm,
    Output.toJson_injective houtput, ?_, ?_, fun _ => by rw [htypes], fun _ => by rw [htypes]⟩
  · exact List.map_injective_iff.mpr (fun _ _ => Json.string.inj) hlibraries
  · rw [Analysis.diagnostics, Analysis.diagnostics, Diagnostics.mk.injEq]
    exact List.map_injective_iff.mpr Diagnostic.toJson_injective hdiagnostics

/-- A program of one function, which takes a pointer through which it may write a pointer. -/
def writing (name : String) : Program where
  files := [⟨"main.kiln", .numbered 0, [
    .rootExport ⟨.numbered 1, "library", "app", []⟩,
    .fnDef ⟨.numbered 2, ⟨.numbered 3, name, .exported,
      [⟨.numbered 4, "p", .pointer (.numbered 5) .mutable
        (.pointer (.numbered 6) .constant (.named (.numbered 7) "i32"))⟩],
      .named (.numbered 8) "void", []⟩, .void (.numbered 9)⟩]⟩]
  entry := 0

/-- The names of functions are not shown, so two programs can have one dump. Both have the type
`*mut *const i32`, and both give its handle when it is asked for again. -/
theorem writing_dump : ∃ a b, (writing "put").analyze .none = .ok a ∧
    (writing "set").analyze .none = .ok b ∧ a.functions.map (·.name) = ["put"] ∧
    b.functions.map (·.name) = ["set"] ∧ a.dump = b.dump ∧ a.types = b.types ∧
    a.types.name? ⟨8⟩ = some "*mut *const i32" ∧
    a.types.answer? [⟨.mutable, ⟨7⟩⟩] = b.types.answer? [⟨.mutable, ⟨7⟩⟩] := by
  have hnames : ∀ name ∈ ["put", "set"], ((writing name).analyze .none).map (fun a =>
      (a.functions.map (·.name), a.types.name? ⟨8⟩)) =
        .ok ([name], some "*mut *const i32") := by decide +kernel
  have htables : ((writing "put").analyze .none).toOption.map (fun a => (a.types, a.notes.slots)) =
      ((writing "set").analyze .none).toOption.map fun b => (b.types, b.notes.slots) := by
    decide +kernel
  have hrest : ((writing "put").analyze .none).toOption.map (fun a =>
      (a.output, a.libraries, a.diagnostics.toList)) =
      ((writing "set").analyze .none).toOption.map fun b =>
        (b.output, b.libraries, b.diagnostics.toList) := by decide +kernel
  obtain ⟨a, ha, hput⟩ := map_eq_ok_iff.mp (hnames "put" (by decide))
  obtain ⟨b, hb, hset⟩ := map_eq_ok_iff.mp (hnames "set" (by decide))
  obtain ⟨hput, hname⟩ := Prod.mk.inj hput
  simp only [ha, hb, Except.toOption, Option.map_some, Option.some.injEq, Prod.mk.injEq]
    at htables hrest
  obtain ⟨htypes, hnotes⟩ := htables
  obtain ⟨houtput, hlibraries, hdiagnostics⟩ := hrest
  have hdump : a.dump = b.dump := by
    rw [Analysis.dump, Analysis.dump, Analysis.toJson, Analysis.toJson, Notes.toJson, Notes.toJson,
      Notes.toSortedList, Notes.toSortedList, htypes, hnotes, houtput, hlibraries, hdiagnostics]
  obtain ⟨htypes, -, -, -, -, -, -, hanswers⟩ := eq_of_dump_eq ha hb hdump
  exact ⟨a, b, ha, hb, hput, (Prod.mk.inj hset).1, hdump, htypes, hname, hanswers _⟩

end Program

end Sema
