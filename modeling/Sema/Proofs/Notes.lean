import Sema.Note
import Sema.Proofs.Keyed
import Sema.Proofs.Outcome

/-!
Notes are written once. A note that is there stays as it is, and writing fails exactly at a node
that has a note already.
-/

namespace Sema

/-- What a note is about. -/
inductive NoteKind where
  | typeRef
  | expr
  | fnDef (skip : Bool)
deriving DecidableEq

def Note.kind : Note → NoteKind
  | .typeRef _ => .typeRef
  | .expr _ => .expr
  | .fnDef skip _ => .fnDef skip

/-- The types a note holds. -/
def Note.types : Note → List TypeId
  | .typeRef type => [type]
  | .expr type => [type]
  | .fnDef _ implicitReturn => implicitReturn.toList

namespace Notes

/-- The nodes with a note and what it is about, in the order of writing. -/
def written (t : Notes) : List (NodeId × NoteKind) :=
  (t.slots.map fun s => (s.1, s.2.kind)).reverse

/-- Whether all notes of `t` are notes of `u`. -/
def Within (t u : Notes) : Prop := ∀ n x, t.get? n = some x → u.get? n = some x

/-- Whether no node is among the slots twice. -/
def Distinct (t : Notes) : Prop := (t.slots.map Prod.fst).Nodup

theorem Within.refl (t : Notes) : t.Within t := fun _ _ h => h

theorem Within.trans {t u v : Notes} (h : t.Within u) (h' : u.Within v) : t.Within v :=
  fun n x hx => h' n x (h n x hx)

theorem Within.resolvedType? {t u : Notes} (h : t.Within u) {n : NodeId} {i : TypeId}
    (hn : t.resolvedType? n = some i) : u.resolvedType? n = some i := by
  unfold Notes.resolvedType? at *
  split at hn
  · next type hget => rw [h n _ hget, ← hn]
  · cases hn

@[simp] theorem written_empty : empty.written = [] := rfl

theorem get?_cons (t : Notes) (n m : NodeId) (x : Note) :
    get? ⟨(n, x) :: t.slots⟩ m = if m = n then some x else t.get? m :=
  lookup_cons_eq_ite (n, x) t.slots m

/-! ### What a node's note is -/

theorem mem_slots_of_get? {t : Notes} {n : NodeId} {x : Note} (h : t.get? n = some x) :
    (n, x) ∈ t.slots :=
  mem_of_lookup h

theorem get?_of_mem_slots {t : Notes} (ht : t.Distinct) {n : NodeId} {x : Note}
    (h : (n, x) ∈ t.slots) : t.get? n = some x :=
  (lookup_eq_some_iff_mem ht).mpr h

theorem mem_written_of_get? {t : Notes} {n : NodeId} {x : Note} (h : t.get? n = some x) :
    (n, x.kind) ∈ t.written :=
  List.mem_reverse.mpr (List.mem_map_of_mem (f := fun s => (s.1, s.2.kind)) (mem_slots_of_get? h))

theorem get?_of_mem_written {t : Notes} (ht : t.Distinct) {n : NodeId} {k : NoteKind}
    (h : (n, k) ∈ t.written) : ∃ x, t.get? n = some x ∧ x.kind = k := by
  rw [written, List.mem_reverse, List.mem_map] at h
  obtain ⟨⟨m, x⟩, hm, heq⟩ := h
  rw [Prod.mk.injEq] at heq
  obtain ⟨rfl, rfl⟩ := heq
  exact ⟨x, get?_of_mem_slots ht hm, rfl⟩

theorem get?_eq_none_iff {t : Notes} {n : NodeId} :
    t.get? n = none ↔ n ∉ t.written.map Prod.fst := by
  rw [get?, lookup_eq_none_iff_not_mem, written, List.map_reverse, List.mem_reverse, List.map_map]
  rfl

theorem nodup_written {t : Notes} (ht : t.Distinct) : (t.written.map Prod.fst).Nodup := by
  rw [written, List.map_reverse, List.nodup_reverse, List.map_map]
  exact ht

theorem mem_written_iff {t : Notes} (ht : t.Distinct) {n : NodeId} {k : NoteKind} :
    (n, k) ∈ t.written ↔ ∃ x, t.get? n = some x ∧ x.kind = k := by
  refine ⟨get?_of_mem_written ht, ?_⟩
  rintro ⟨x, hx, rfl⟩
  exact mem_written_of_get? hx

theorem exists_typeRef_iff {t : Notes} (ht : t.Distinct) {n : NodeId} :
    (∃ i, t.get? n = some (.typeRef i)) ↔ (n, .typeRef) ∈ t.written := by
  rw [mem_written_iff ht]
  constructor
  · rintro ⟨i, hi⟩
    exact ⟨_, hi, rfl⟩
  · rintro ⟨x, hx, hk⟩
    cases x with
    | typeRef i => exact ⟨i, hx⟩
    | _ => cases hk

theorem exists_expr_iff {t : Notes} (ht : t.Distinct) {n : NodeId} :
    (∃ i, t.get? n = some (.expr i)) ↔ (n, .expr) ∈ t.written := by
  rw [mem_written_iff ht]
  constructor
  · rintro ⟨i, hi⟩
    exact ⟨_, hi, rfl⟩
  · rintro ⟨x, hx, hk⟩
    cases x with
    | expr i => exact ⟨i, hx⟩
    | _ => cases hk

theorem exists_fnDef_iff {t : Notes} (ht : t.Distinct) {n : NodeId} {skip : Bool} :
    (∃ i, t.get? n = some (.fnDef skip i)) ↔ (n, .fnDef skip) ∈ t.written := by
  rw [mem_written_iff ht]
  constructor
  · rintro ⟨i, hi⟩
    exact ⟨_, hi, rfl⟩
  · rintro ⟨x, hx, hk⟩
    cases x with
    | fnDef skip' i =>
      cases hk
      exact ⟨i, hx⟩
    | _ => cases hk

theorem isSkipped_iff {t : Notes} (ht : t.Distinct) {n : NodeId} :
    t.isSkipped n ↔ (n, .fnDef true) ∈ t.written := by
  rw [← exists_fnDef_iff ht]
  unfold isSkipped
  constructor
  · intro h
    split at h
    · next skip type hn =>
      subst h
      exact ⟨type, hn⟩
    · cases h
  · rintro ⟨i, hi⟩
    rw [hi]

/-! ### Writing -/

/-- What one writing does. -/
structure Recorded (t : Notes) (n : NodeId) (x : Note) (u : Notes) : Prop where
  vacant : t.get? n = none
  within : t.Within u
  written : u.written = t.written ++ [(n, x.kind)]
  get? : ∀ m, u.get? m = if m = n then some x else t.get? m
  distinct : t.Distinct → u.Distinct

theorem recorded {t u : Notes} {n : NodeId} {x : Note} (h : t.record n x = .ok u) :
    t.Recorded n x u := by
  obtain ⟨hn, rfl⟩ := record_eq_ok.mp h
  have hget : ∀ m, get? ⟨(n, x) :: t.slots⟩ m = if m = n then some x else t.get? m :=
    fun m => get?_cons t n m x
  refine ⟨hn, ?_, by simp [written], hget, ?_⟩
  · intro m y hm
    rw [hget, if_neg]
    · exact hm
    · rintro rfl
      rw [hn] at hm
      cases hm
  · intro ht
    rw [Distinct, List.map_cons, List.nodup_cons]
    refine ⟨?_, ht⟩
    rw [get?_eq_none_iff, written, List.map_reverse, List.mem_reverse, List.map_map] at hn
    exact hn

theorem record_of_vacant {t : Notes} {n : NodeId} (h : t.get? n = none) (x : Note) :
    ∃ u, t.record n x = .ok u :=
  ⟨_, record_eq_ok.mpr ⟨h, rfl⟩⟩

theorem record_eq_error {t : Notes} {n : NodeId} {x : Note} {e : AnalysisError}
    (h : t.record n x = .error e) : e = .alreadyAnnotated n ∧ t.get? n ≠ none := by
  unfold record contains at h
  split at h
  · next hc => exact ⟨(Except.error.inj h).symm, Option.isSome_iff_ne_none.mp hc⟩
  · cases h

/-- What writing a list of notes does. -/
structure RecordedAll (t : Notes) (l : List (NodeId × Note)) (u : Notes) : Prop where
  within : t.Within u
  written : u.written = t.written ++ l.map fun s => (s.1, s.2.kind)
  get? : ∀ s ∈ l, u.get? s.1 = some s.2
  old_or_new : ∀ n x, u.get? n = some x → t.get? n = some x ∨ (n, x) ∈ l
  distinct : t.Distinct → u.Distinct

theorem recordedAll : ∀ {l : List (NodeId × Note)} {t u : Notes}, t.recordAll l = .ok u →
    t.RecordedAll l u
  | [], t, u, h => by
    cases Except.ok.inj h
    exact ⟨.refl t, by simp, by simp, fun n x hx => .inl hx, id⟩
  | (n, x) :: l, t, u, h => by
    rw [recordAll, bind_eq_ok_iff] at h
    obtain ⟨v, hv, h⟩ := h
    have h1 := recorded hv
    have h2 := recordedAll h
    refine ⟨h1.within.trans h2.within, ?_, ?_, ?_, fun ht => h2.distinct (h1.distinct ht)⟩
    · rw [h2.written, h1.written]
      simp
    · intro s hs
      rcases List.mem_cons.mp hs with rfl | hs
      · refine h2.within _ _ ?_
        rw [h1.get?, if_pos rfl]
      · exact h2.get? s hs
    · intro m y hy
      rcases h2.old_or_new m y hy with hy | hy
      · rw [h1.get?] at hy
        split at hy
        · next hm =>
          rw [hm, ← Option.some.inj hy]
          exact .inr (List.mem_cons_self ..)
        · exact .inl hy
      · exact .inr (List.mem_cons_of_mem _ hy)

/-- Writing changes nothing but that nodes without a note get one. -/
theorem RecordedAll.get?_eq_or {l : List (NodeId × Note)} {t u : Notes} (h : t.RecordedAll l u)
    (n : NodeId) :
    u.get? n = t.get? n ∨ t.get? n = none ∧ ∃ x, u.get? n = some x ∧ (n, x) ∈ l := by
  cases ht : t.get? n with
  | some x => exact .inl (h.within n x ht)
  | none =>
    cases hu : u.get? n with
    | none => exact .inl rfl
    | some x =>
      rcases h.old_or_new n x hu with hold | hnew
      · rw [ht] at hold
        cases hold
      · exact .inr ⟨rfl, x, rfl, hnew⟩

theorem recordAll_append : ∀ (l m : List (NodeId × Note)) (t : Notes),
    t.recordAll (l ++ m) = t.recordAll l >>= fun u => u.recordAll m
  | [], _, _ => rfl
  | (n, x) :: l, m, t => by
    rw [List.cons_append, recordAll, recordAll, bind_assoc]
    exact bind_congr fun u => recordAll_append l m u

/-- Notes of distinct nodes that have none can all be written. -/
theorem recordAll_of_vacant : ∀ {l : List (NodeId × Note)} {t : Notes}, (l.map Prod.fst).Nodup →
    (∀ n ∈ l.map Prod.fst, t.get? n = none) → ∃ u, t.recordAll l = .ok u
  | [], t, _, _ => ⟨t, rfl⟩
  | (n, x) :: l, t, hd, hv => by
    rw [List.map_cons, List.nodup_cons] at hd
    obtain ⟨v, hr⟩ := record_of_vacant (hv n (List.mem_cons_self ..)) x
    have hvac : ∀ m ∈ l.map Prod.fst, v.get? m = none := by
      intro m hm
      rw [(recorded hr).get?, if_neg]
      · exact hv m (List.mem_cons_of_mem _ hm)
      · rintro rfl
        exact hd.1 hm
    obtain ⟨u, hu⟩ := recordAll_of_vacant hd.2 hvac
    exact ⟨u, bind_eq_ok_iff.mpr ⟨v, hr, hu⟩⟩

/-- Notes that are all written are those of distinct nodes that had none. -/
theorem vacant_of_recordAll : ∀ {l : List (NodeId × Note)} {t u : Notes}, t.recordAll l = .ok u →
    (l.map Prod.fst).Nodup ∧ ∀ n ∈ l.map Prod.fst, t.get? n = none
  | [], _, _, _ => ⟨List.nodup_nil, by simp⟩
  | (n, x) :: l, t, u, h => by
    rw [recordAll, bind_eq_ok_iff] at h
    obtain ⟨v, hv, h⟩ := h
    have hrec := recorded hv
    obtain ⟨hnodup, hvacant⟩ := vacant_of_recordAll h
    have hold : ∀ m ∈ l.map Prod.fst, m ≠ n ∧ t.get? m = none := by
      intro m hm
      have hnone := hvacant m hm
      rw [hrec.get?] at hnone
      split at hnone
      · cases hnone
      · next hne => exact ⟨hne, hnone⟩
    rw [List.map_cons, List.nodup_cons, List.forall_mem_cons]
    exact ⟨⟨fun hn => (hold n hn).1 rfl, hnodup⟩, hrec.vacant, fun m hm => (hold m hm).2⟩

theorem recordAll_eq_error : ∀ {l : List (NodeId × Note)} {t : Notes} {e : AnalysisError},
    t.recordAll l = .error e → ∃ n, e = .alreadyAnnotated n
  | [], t, e, h => by cases h
  | (n, x) :: l, t, e, h => by
    rw [recordAll, bind_eq_error_iff] at h
    rcases h with h | ⟨v, -, h⟩
    · exact ⟨n, (record_eq_error h).1⟩
    · exact recordAll_eq_error h

end Notes

end Sema
