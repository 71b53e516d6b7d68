import Mathlib.Data.List.Basic

/-!
Steps that may fail, and runs of such steps over a list.
-/

namespace Sema

variable {ε α β : Type}

theorem bind_eq_ok_iff {x : Except ε α} {f : α → Except ε β} {y : β} :
    (x >>= f) = .ok y ↔ ∃ a, x = .ok a ∧ f a = .ok y := by
  cases x with
  | error e => simp [bind, Except.bind]
  | ok a => simp [bind, Except.bind]

theorem bind_eq_error_iff {x : Except ε α} {f : α → Except ε β} {e : ε} :
    (x >>= f) = .error e ↔ x = .error e ∨ ∃ a, x = .ok a ∧ f a = .error e := by
  cases x with
  | error e => simp [bind, Except.bind]
  | ok a => simp [bind, Except.bind]

/-- A step without a result that comes before others. -/
theorem step_eq_ok_iff {x : Except ε Unit} {y : Except ε β} {z : β} :
    (do x; y) = .ok z ↔ x = .ok () ∧ y = .ok z := by
  cases x with
  | error e => simp [bind, Except.bind]
  | ok a => simp [bind, Except.bind]

theorem refuse_eq_ok_iff {p : Prop} [Decidable p] {e : ε} :
    (if p then throw e else pure () : Except ε Unit) = .ok () ↔ ¬ p := by
  by_cases h : p <;> simp [h, pure, Except.pure, throw, throwThe, MonadExceptOf.throw]

theorem pure_eq_ok_iff {x y : α} : (pure x : Except ε α) = .ok y ↔ x = y := by
  simp [pure, Except.pure]

theorem map_eq_ok_iff {x : Except ε α} {f : α → β} {y : β} :
    x.map f = .ok y ↔ ∃ a, x = .ok a ∧ f a = y := by
  cases x <;> simp [Except.map]

theorem forM_eq_ok_iff {f : α → Except ε Unit} {l : List α} :
    l.forM f = .ok () ↔ ∀ x ∈ l, f x = .ok () := by
  induction l with
  | nil => simp [pure, Except.pure]
  | cons x l ih =>
    rw [List.forall_mem_cons, ← ih]
    simp only [List.forM_eq_forM, List.forM_cons, bind_eq_ok_iff]
    exact ⟨fun ⟨_, hx, hl⟩ => ⟨hx, hl⟩, fun ⟨hx, hl⟩ => ⟨(), hx, hl⟩⟩

theorem mapM_eq_some_iff {g : α → Option β} : ∀ {l : List α} {l' : List β},
    l.mapM g = some l' ↔ l.map g = l'.map some
  | [], l' => by cases l' <;> simp
  | x :: l, l' => by
    have ih : ∀ m : List β, l.mapM g = some m ↔ l.map g = m.map some := fun _ => mapM_eq_some_iff
    cases hx : g x with
    | none => cases l' <;> simp [hx]
    | some y =>
      cases hl : l.mapM g with
      | none =>
        simp only [hl, reduceCtorEq, false_iff] at ih
        cases l' <;> simp [hx, hl, ih]
      | some m =>
        cases l' with
        | nil => simp [hx, hl]
        | cons z l' => simp [hx, hl, ← ih]

/-- A relation between the items done and the state, kept by each step, holds after a run. -/
theorem foldlM_ok {f : β → α → Except ε β} (I : List α → β → Prop)
    (step : ∀ done x b b', I done b → f b x = .ok b' → I (done ++ [x]) b') :
    ∀ (l done : List α) (b b' : β), I done b → l.foldlM f b = .ok b' → I (done ++ l) b'
  | [], done, b, b', hb, h => by
    rw [List.foldlM_nil, pure_eq_ok_iff] at h
    rw [List.append_nil, ← h]
    exact hb
  | x :: l, done, b, b', hb, h => by
    rw [List.foldlM_cons, bind_eq_ok_iff] at h
    obtain ⟨c, hc, h⟩ := h
    have := foldlM_ok I step l (done ++ [x]) c b' (step done x b c hb hc) h
    rwa [List.append_assoc, List.singleton_append] at this

/-- A run fails only by a step that fails in a state reached before. -/
theorem foldlM_error {f : β → α → Except ε β} (I : List α → β → Prop)
    (step : ∀ done x b b', I done b → f b x = .ok b' → I (done ++ [x]) b') {e : ε} :
    ∀ (l done : List α) (b : β), I done b → l.foldlM f b = .error e →
      ∃ seen x rest c, l = seen ++ x :: rest ∧ I (done ++ seen) c ∧ f c x = .error e
  | [], _, _, _, h => by simp [pure, Except.pure] at h
  | x :: l, done, b, hb, h => by
    rw [List.foldlM_cons, bind_eq_error_iff] at h
    rcases h with h | ⟨c, hc, h⟩
    · exact ⟨[], x, l, b, rfl, by rwa [List.append_nil], h⟩
    · obtain ⟨seen, y, rest, d, rfl, hd, hy⟩ :=
        foldlM_error I step l (done ++ [x]) c (step done x b c hb hc) h
      refine ⟨x :: seen, y, rest, d, rfl, ?_, hy⟩
      rwa [List.append_assoc, List.singleton_append] at hd

/-- A run simulates another when each step does, from related states to related states. -/
theorem foldlM_simulates {γ : Type} {f : β → α → Except ε β} {g : γ → α → Except ε γ}
    (R : β → γ → Prop)
    (step : ∀ x b c b', R b c → f b x = .ok b' → ∃ c', g c x = .ok c' ∧ R b' c') :
    ∀ (l : List α) {b : β} {c : γ} {b' : β}, R b c → l.foldlM f b = .ok b' →
      ∃ c', l.foldlM g c = .ok c' ∧ R b' c'
  | [], b, c, b', hR, h => by
    obtain rfl := pure_eq_ok_iff.mp h
    exact ⟨c, rfl, hR⟩
  | x :: l, b, c, b', hR, h => by
    rw [List.foldlM_cons, bind_eq_ok_iff] at h
    obtain ⟨b₁, hb₁, h⟩ := h
    obtain ⟨c₁, hc₁, hR₁⟩ := step x b c b₁ hR hb₁
    obtain ⟨c', hc', hR'⟩ := foldlM_simulates R step l hR₁ h
    exact ⟨c', by rw [List.foldlM_cons, hc₁]; exact hc', hR'⟩

end Sema
