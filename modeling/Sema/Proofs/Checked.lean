import Sema.Analysis.Bodies

/-!
What can be said of a run of checking from its parts: that it finds nothing, and that it is safe.
-/

namespace Sema

/-- Whether an issue can be found in a body or a use declaration. -/
def Issue.ofBody : Issue → Bool
  | .mismatch _ _ => true
  | .undefinedFunction _ => true
  | .argumentCount _ _ => true
  | .unreachableCode => true
  | .unreachableReturn => true
  | .invalidDirective _ => true
  | _ => false

/-- Whether a finding is that two types do not fit. -/
def Finding.isMismatch (f : Finding) : Bool :=
  match f.issue with
  | .mismatch _ _ => true
  | _ => false

namespace Checked

variable {α β : Type}

theorem pure_eq (v : α) : (pure v : Checked α) = .pure v := rfl

theorem bind_eq (x : Checked α) (f : α → Checked β) : (x >>= f) = .bind x f := rfl

theorem bind_assoc {γ : Type} (x : Checked α) (f : α → Checked β) (g : β → Checked γ) :
    x >>= f >>= g = x >>= fun v => f v >>= g := by
  obtain ⟨notes, findings, outcome⟩ := x
  cases outcome with
  | error e => rfl
  | ok v => cases h : (f v).outcome <;> simp [bind_eq, Checked.bind, h]

instance : LawfulMonad Checked := .mk' _
  (fun x => by
    obtain ⟨notes, findings, outcome⟩ := x
    cases outcome <;> simp [Functor.map, Checked.bind, Checked.pure])
  (fun x f => by simp [pure_eq, bind_eq, Checked.pure, Checked.bind])
  bind_assoc

/-! ### Clean runs -/

/-- Whether checking ends with a value and finds nothing. -/
def Clean (x : Checked α) (v : α) : Prop := x.findings = [] ∧ x.outcome = .ok v

theorem clean_bind_iff {x : Checked α} {f : α → Checked β} {v : β} :
    (x >>= f).Clean v ↔ ∃ u, x.Clean u ∧ (f u).Clean v := by
  change (Checked.bind x f).Clean v ↔ _
  unfold Checked.bind Clean
  cases h : x.outcome with
  | error e => simp
  | ok u => simp [and_assoc]

theorem clean_pure_iff {u v : α} : (Checked.pure u).Clean v ↔ u = v := by
  simp [Checked.pure, Clean]

theorem clean_note (n : NodeId) (x : Note) : (note n x).Clean () := ⟨rfl, rfl⟩

theorem not_clean_report {file : String} {pos : Position} {issue : Issue} {v : Unit} :
    ¬ (report file pos issue).Clean v := fun h => List.cons_ne_nil _ _ h.1

theorem not_clean_fail {e : AnalysisError} {v : α} : ¬ (fail e : Checked α).Clean v :=
  fun h => nomatch h.2

theorem clean_ofOption_iff {e : AnalysisError} {o : Option α} {v : α} :
    (ofOption e o).Clean v ↔ o = some v := by
  cases o with
  | none => simp [ofOption, not_clean_fail]
  | some u => simp [ofOption, clean_pure_iff]

theorem clean_ofExcept_iff {ε : Type} {f : ε → AnalysisError} {r : Except ε α} {v : α} :
    (ofExcept f r).Clean v ↔ r = .ok v := by
  cases r with
  | error e => simp [ofExcept, not_clean_fail]
  | ok u => simp [ofExcept, clean_pure_iff]

theorem clean_forM_iff {f : α → Checked Unit} : ∀ {l : List α},
    (l.forM f).Clean () ↔ ∀ x ∈ l, (f x).Clean ()
  | [] => by
    change (Checked.pure ()).Clean () ↔ _
    simp [clean_pure_iff]
  | x :: l => by
    change (f x >>= fun _ => l.forM f).Clean () ↔ _
    rw [clean_bind_iff, List.forall_mem_cons, ← clean_forM_iff]
    constructor
    · rintro ⟨_, h, hl⟩
      exact ⟨h, hl⟩
    · rintro ⟨h, hl⟩
      exact ⟨(), h, hl⟩

/-! ### Runs over lists -/

/-- What a run over a list gives when each of its parts ends with a value. -/
theorem forM_of_ok {f : α → Checked Unit} : ∀ {l : List α},
    (∀ x ∈ l, (f x).outcome = .ok ()) →
      l.forM f = ⟨l.flatMap fun x => (f x).notes, l.flatMap fun x => (f x).findings, .ok ()⟩
  | [], _ => rfl
  | x :: l, h => by
    obtain ⟨hx, hl⟩ := List.forall_mem_cons.mp h
    change Checked.bind (f x) (fun _ => l.forM f) = _
    rw [Checked.bind, hx, forM_of_ok hl]
    rfl

theorem outcome_forM_iff {f : α → Checked Unit} : ∀ {l : List α},
    (l.forM f).outcome = .ok () ↔ ∀ x ∈ l, (f x).outcome = .ok ()
  | [] => by
    change (Checked.pure ()).outcome = .ok () ↔ _
    simp [Checked.pure]
  | x :: l => by
    change (Checked.bind (f x) (fun _ => l.forM f)).outcome = .ok () ↔ _
    rw [List.forall_mem_cons, ← outcome_forM_iff, Checked.bind]
    cases (f x).outcome with
    | ok u => simp
    | error e => simp

theorem forM_congr {f g : α → Checked Unit} : ∀ {l : List α}, (∀ x ∈ l, f x = g x) →
    l.forM f = l.forM g
  | [], _ => rfl
  | x :: l, h => by
    obtain ⟨hx, hl⟩ := List.forall_mem_cons.mp h
    change (f x >>= fun _ => l.forM f) = g x >>= fun _ => l.forM g
    rw [hx, forM_congr hl]

/-! ### Safe runs -/

/-- Whether all notes given satisfy `N`, all issues satisfy `F`, and checking ends with a value that
satisfies `Q`, or stops at a construct without a rule. -/
structure Ensures (N : NodeId × Note → Prop) (F : Issue → Prop) (Q : α → Prop) (x : Checked α) :
    Prop where
  notes : ∀ s ∈ x.notes, N s
  findings : ∀ f ∈ x.findings, F f.issue
  value : ∀ v, x.outcome = .ok v → Q v
  error : ∀ e, x.outcome = .error e → e.isUnsupported

namespace Ensures

variable {N : NodeId × Note → Prop} {F : Issue → Prop} {P : α → Prop} {Q : β → Prop}

theorem bind {x : Checked α} {f : α → Checked β} (hx : x.Ensures N F P)
    (hf : ∀ v, P v → (f v).Ensures N F Q) : (x >>= f).Ensures N F Q := by
  rw [bind_eq, Checked.bind]
  cases hout : x.outcome with
  | ok v =>
    have hv := hf v (hx.value v hout)
    exact ⟨List.forall_mem_append.mpr ⟨hx.notes, hv.notes⟩,
      List.forall_mem_append.mpr ⟨hx.findings, hv.findings⟩, hv.value, hv.error⟩
  | error e =>
    refine ⟨hx.notes, hx.findings, fun _ h => (nomatch h), ?_⟩
    rintro _ ⟨⟩
    exact hx.error e hout

theorem pure {v : α} (h : P v) : (Checked.pure v).Ensures N F P where
  notes := fun _ hs => nomatch hs
  findings := fun _ hf => nomatch hf
  value := by
    rintro _ ⟨⟩
    exact h
  error := fun _ he => nomatch he

theorem note {n : NodeId} {x : Note} (h : N (n, x)) :
    (Checked.note n x).Ensures N F fun _ => True where
  notes := List.forall_mem_singleton.mpr h
  findings := fun _ hf => nomatch hf
  value := fun _ _ => trivial
  error := fun _ he => nomatch he

theorem report {file : String} {pos : Position} {issue : Issue} (h : F issue) :
    (Checked.report file pos issue).Ensures N F fun _ => True where
  notes := fun _ hs => nomatch hs
  findings := List.forall_mem_singleton.mpr h
  value := fun _ _ => trivial
  error := fun _ he => nomatch he

theorem fail {e : AnalysisError} (h : e.isUnsupported) :
    (Checked.fail e : Checked α).Ensures N F P where
  notes := fun _ hs => nomatch hs
  findings := fun _ hf => nomatch hf
  value := fun _ hv => nomatch hv
  error := by
    rintro _ ⟨⟩
    exact h

theorem ofExcept {ε : Type} {f : ε → AnalysisError} {r : Except ε α}
    (hf : ∀ e, (f e).isUnsupported) (h : ∀ v, r = .ok v → P v) :
    (Checked.ofExcept f r).Ensures N F P := by
  cases r with
  | ok v => exact pure (h v rfl)
  | error e => exact fail (hf e)

theorem forM {f : α → Checked Unit} : ∀ {l : List α},
    (∀ x ∈ l, (f x).Ensures N F fun _ => True) → (l.forM f).Ensures N F fun _ => True
  | [], _ => pure trivial
  | x :: l, h => by
    obtain ⟨hx, hl⟩ := List.forall_mem_cons.mp h
    exact hx.bind fun _ _ => forM hl

end Ensures

end Checked

end Sema
