import Sema.Proofs.Checked
import Sema.Proofs.Live
import Sema.Proofs.Notes

/-!
The notes that checking gives. Whatever happens they are about distinct parts of the body; and when
checking ends with a value they are about its live parts, each once.
-/

namespace Sema

namespace Checked

variable {α β : Type}

/-- Whether the nodes noted are among `l`, in this order and each at most once for each place. -/
def Within (x : Checked α) (l : List NodeId) : Prop := (x.notes.map Prod.fst).Sublist l

theorem Within.of_notes_eq_nil {x : Checked α} (h : x.notes = []) (l : List NodeId) :
    x.Within l := by
  rw [Within, h]
  exact List.nil_sublist l

theorem Within.bind {x : Checked α} {f : α → Checked β} {l m : List NodeId} (hx : x.Within l)
    (hf : ∀ v, (f v).Within m) : (x >>= f).Within (l ++ m) := by
  rw [Within, bind_eq, Checked.bind]
  cases x.outcome with
  | ok v =>
    rw [List.map_append]
    exact hx.append (hf v)
  | error e => exact hx.trans (List.sublist_append_left l m)

/-- A part that gives no notes does not count. -/
theorem Within.bind_of_nil {x : Checked α} {f : α → Checked β} {l : List NodeId}
    (hx : x.notes = []) (hf : ∀ v, (f v).Within l) : (x >>= f).Within l :=
  (Within.of_notes_eq_nil hx []).bind hf

theorem Within.forM {f : α → Checked Unit} {ids : α → List NodeId} : ∀ {l : List α},
    (∀ x ∈ l, (f x).Within (ids x)) → (l.forM f).Within (l.flatMap ids)
  | [], _ => .of_notes_eq_nil rfl _
  | x :: l, h => by
    obtain ⟨hx, hl⟩ := List.forall_mem_cons.mp h
    exact hx.bind fun _ => .forM hl

/-- Whether checking ends with a value, after giving some notes. -/
def Gives (x : Checked α) (v : α) (notes : List (NodeId × Note)) : Prop :=
  x.outcome = .ok v ∧ x.notes = notes

theorem gives_bind_iff {x : Checked α} {f : α → Checked β} {w : β} {l : List (NodeId × Note)} :
    (x >>= f).Gives w l ↔ ∃ v m n, x.Gives v m ∧ (f v).Gives w n ∧ l = m ++ n := by
  rw [Gives, bind_eq, Checked.bind]
  cases h : x.outcome with
  | error e => simp [Gives, h]
  | ok v =>
    constructor
    · rintro ⟨hw, rfl⟩
      exact ⟨v, _, _, ⟨h, rfl⟩, ⟨hw, rfl⟩, rfl⟩
    · rintro ⟨v', _, _, ⟨hv, rfl⟩, ⟨hw, rfl⟩, rfl⟩
      rw [h, Except.ok.injEq] at hv
      subst hv
      exact ⟨hw, rfl⟩

theorem gives_pure_iff {v w : α} {l : List (NodeId × Note)} :
    (Checked.pure v).Gives w l ↔ v = w ∧ l = [] := by
  simp [Checked.pure, Gives, eq_comm]

theorem gives_note_iff {n : NodeId} {x : Note} {v : Unit} {l : List (NodeId × Note)} :
    (note n x).Gives v l ↔ l = [(n, x)] := by
  simp [note, Gives, eq_comm]

theorem not_gives_fail {e : AnalysisError} {v : α} {l : List (NodeId × Note)} :
    ¬ (fail e : Checked α).Gives v l := fun h => nomatch h.1

/-- A part without notes can be left out of account. -/
theorem Gives.of_bind_of_nil {x : Checked α} {f : α → Checked β} {w : β} {l : List (NodeId × Note)}
    (hx : x.notes = []) (h : (x >>= f).Gives w l) : ∃ v, x.outcome = .ok v ∧ (f v).Gives w l := by
  obtain ⟨v, m, n, ⟨hv, rfl⟩, hf, rfl⟩ := gives_bind_iff.mp h
  rw [hx, List.nil_append]
  exact ⟨v, hv, hf⟩

theorem notes_bind_eq_nil {x : Checked α} {f : α → Checked β} (hx : x.notes = [])
    (hf : ∀ v, (f v).notes = []) : (x >>= f).notes = [] := by
  rw [bind_eq, Checked.bind]
  cases x.outcome with
  | ok v => simp [hx, hf]
  | error e => exact hx

theorem notes_forM {f : α → Checked Unit} {l : List α} (h : (l.forM f).outcome = .ok ()) :
    (∀ x ∈ l, (f x).outcome = .ok ()) ∧ (l.forM f).notes = l.flatMap fun x => (f x).notes := by
  have hall := outcome_forM_iff.mp h
  exact ⟨hall, by rw [forM_of_ok hall]⟩

theorem notes_ofOption (e : AnalysisError) (o : Option α) : (ofOption e o).notes = [] := by
  cases o <;> rfl

theorem notes_ofExcept {ε : Type} (f : ε → AnalysisError) (r : Except ε α) :
    (ofExcept f r).notes = [] := by
  cases r <;> rfl

end Checked

namespace Scope

open Checked

variable {s : Scope}

/-! ### Parts without notes -/

theorem notes_compare (pos : Position) (E : Option TypeId) (t : TypeId) :
    (s.compare pos E t).notes = [] := by
  cases E with
  | none => rfl
  | some e =>
    rw [compare]
    split
    · rfl
    · exact notes_bind_eq_nil (notes_ofOption _ _) fun _ =>
        notes_bind_eq_nil (notes_ofOption _ _) fun _ => rfl

theorem notes_concludeReturn (node : Node) (ret t : TypeId) :
    (s.concludeReturn node ret t).notes = [] := by
  unfold concludeReturn
  split
  · exact notes_bind_eq_nil rfl fun _ => notes_compare _ _ _
  · exact notes_compare _ _ _

theorem notes_signature (k : FunctionId) : (s.signature k).notes = [] :=
  notes_bind_eq_nil (notes_ofOption _ _) fun _ =>
    notes_bind_eq_nil (notes_ofOption _ _) fun _ => rfl

/-- After a statement that never completes nothing is noted. -/
theorem notes_checkBlock_unreachable (ret : TypeId) (l : List Expr) :
    (s.checkBlock ret .unreachable l).notes = [] := by
  induction l with
  | nil => rfl
  | cons e rest ih =>
    rw [checkBlock, if_pos rfl]
    dsimp only
    split
    · exact notes_bind_eq_nil rfl fun _ => ih
    · exact ih

theorem within_conclude (node : Node) (E : Option TypeId) (t : TypeId) :
    (s.conclude node E t).Within [node.id] :=
  .bind_of_nil (notes_compare _ _ _) fun _ =>
    Within.bind (l := [node.id]) (m := []) (List.Sublist.refl _) fun _ => .of_notes_eq_nil rfl _

theorem gives_conclude {node : Node} {E : Option TypeId} {t u : TypeId}
    {l : List (NodeId × Note)} (h : (s.conclude node E t).Gives u l) :
    u = t ∧ l = [(node.id, .expr t)] := by
  obtain ⟨_, -, h⟩ := h.of_bind_of_nil (notes_compare _ _ _)
  obtain ⟨_, m, n, hm, hn, rfl⟩ := gives_bind_iff.mp h
  obtain ⟨rfl, rfl⟩ := gives_pure_iff.mp hn
  rw [gives_note_iff.mp hm]
  exact ⟨rfl, rfl⟩

/-! ### Only parts are noted -/

mutual

theorem within_check (ret : TypeId) : ∀ (e : Expr) (E : Option TypeId),
    (s.check ret E e).Within (e.parts.map Expr.id)
  | .number n _, E => within_conclude n E _
  | .string n _, E => within_conclude n E _
  | .unreachable n, E => within_conclude n E _
  | .void n, E => within_conclude n E _
  | .symbol _ _, _ => .of_notes_eq_nil rfl _
  | .cast _ _ _, _ => .of_notes_eq_nil rfl _
  | .binary n op l r, E => by
    rw [check, Expr.parts, List.map_append, List.map_append, List.append_assoc]
    exact .bind_of_nil (notes_ofExcept _ _) fun _ => (within_check ret l _).bind fun _ =>
      (within_check ret r _).bind fun _ => within_conclude n E _
  | .unary n op e, E => by
    rw [check, Expr.parts, List.map_append]
    exact .bind_of_nil (notes_ofExcept _ _) fun _ => (within_check ret e _).bind fun _ =>
      within_conclude n E _
  | .block n l, E => by
    rw [check, Expr.parts, List.map_append]
    exact (within_checkBlock ret l _).bind fun _ => within_conclude n E _
  | .ret n v, E => by
    rw [check, Expr.parts, List.map_append]
    exact (within_checkOptional ret v _).bind fun _ =>
      .bind_of_nil (notes_concludeReturn _ _ _) fun _ => within_conclude n E _
  | .cond n c th el, E => by
    rw [check, Expr.parts, List.map_append, List.map_append, List.map_append, List.append_assoc,
      List.append_assoc]
    exact (within_check ret c _).bind fun _ => (within_checkOptional ret el _).bind fun _ =>
      (within_check ret th _).bind fun _ => .bind_of_nil (notes_compare _ _ _) fun _ =>
        within_conclude n E _
  | .call n callee args, E => by
    have hrest : ∀ params t, (s.checkArgs ret params args >>= fun _ => s.conclude n E t).Within
        ((Expr.parts (.call n callee args)).map Expr.id) := by
      intro params t
      rw [Expr.parts, List.map_append, List.map_append, List.append_assoc]
      refine List.Sublist.trans ?_ (List.sublist_append_right _ _)
      exact (within_checkArgs ret args params).bind fun _ => within_conclude n E _
    cases callee with
    | symbol m name =>
      rw [check]
      cases s.analysis.lookupFunction s.file name with
      | none => exact .bind_of_nil rfl fun _ => hrest _ _
      | some k =>
        refine .bind_of_nil (notes_signature k) fun sig => ?_
        dsimp only
        split
        · exact .bind_of_nil rfl fun _ => hrest _ _
        · exact hrest _ _
    | _ => exact .of_notes_eq_nil rfl _

theorem within_checkOptional (ret : TypeId) : ∀ (e : Option Expr) (E : Option TypeId),
    (s.checkOptional ret E e).Within ((Expr.partsOptional e).map Expr.id)
  | none, _ => .of_notes_eq_nil rfl _
  | some e, E => by
    have h := (within_check ret e E).bind (m := []) fun t =>
      Within.of_notes_eq_nil (x := Checked.pure (some t)) rfl []
    rwa [List.append_nil] at h

theorem within_checkBlock (ret : TypeId) : ∀ (l : List Expr) (last : TypeId),
    (s.checkBlock ret last l).Within ((Expr.partsAll l).map Expr.id)
  | [], _ => .of_notes_eq_nil rfl _
  | e :: rest, last => by
    rw [checkBlock, Expr.partsAll, List.map_append]
    split
    · have hrest := (within_checkBlock ret rest last).trans
        (List.sublist_append_right (e.parts.map Expr.id) _)
      dsimp only
      split
      · exact .bind_of_nil rfl fun _ => hrest
      · exact hrest
    · exact (within_check ret e _).bind fun t => within_checkBlock ret rest t

theorem within_checkArgs (ret : TypeId) : ∀ (l : List Expr) (params : List (Option TypeId)),
    (s.checkArgs ret params l).Within ((Expr.partsAll l).map Expr.id)
  | [], _ => .of_notes_eq_nil rfl _
  | e :: rest, params => by
    rw [checkArgs, Expr.partsAll, List.map_append]
    exact (within_check ret e _).bind fun _ => within_checkArgs ret rest _

end

/-! ### All live parts are noted -/

section

variable {type? : NodeId → Option TypeId}

/-- Whether notes on expressions have the types that are told. -/
def Agrees (type? : NodeId → Option TypeId) (l : List (NodeId × Note)) : Prop :=
  ∀ n t, (n, Note.expr t) ∈ l → type? n = some t

theorem Agrees.append {l m : List (NodeId × Note)} (h : Agrees type? (l ++ m)) :
    Agrees type? l ∧ Agrees type? m :=
  ⟨fun n t hn => h n t (List.mem_append_left _ hn), fun n t hn => h n t (List.mem_append_right _ hn)⟩

/-- Notes that are written have the types that are read afterwards. -/
theorem agrees_of_recordedAll {start done : Notes} {l : List (NodeId × Note)}
    (h : start.RecordedAll l done) : Agrees done.exprType? l := by
  intro n t hn
  rw [Notes.exprType?, h.get? _ hn]

/-- Whether `l` has a note on each of the expressions, in order, and on nothing else. -/
def Marks (l : List (NodeId × Note)) (es : List Expr) : Prop :=
  (l.map fun x => (x.1, x.2.kind)) = es.map fun e => (e.id, .expr)

theorem Marks.append {l m : List (NodeId × Note)} {es fs : List Expr} (h : Marks l es)
    (h' : Marks m fs) : Marks (l ++ m) (es ++ fs) := by
  rw [Marks, List.map_append, List.map_append, h, h']

/-- An expression ends with a note on itself. -/
theorem marks_of_conclude {node : Node} {E : Option TypeId} {t u : TypeId} {e : Expr}
    {l : List (NodeId × Note)} (h : (s.conclude node E t).Gives u l) (hl : Agrees type? l)
    (he : e.id = node.id) : Marks l [e] ∧ type? e.id = some u := by
  obtain ⟨rfl, rfl⟩ := gives_conclude h
  rw [he]
  exact ⟨by rw [Marks, List.map_singleton, List.map_singleton, he]; rfl,
    hl _ _ (List.mem_singleton_self _)⟩

mutual

/-- A body that is checked to its end has notes on its live parts. -/
theorem marks_of_check (ret : TypeId) : ∀ (e : Expr) {E : Option TypeId} {t : TypeId}
    {l : List (NodeId × Note)}, (s.check ret E e).Gives t l → Agrees type? l →
      Marks l (e.live (Expr.diverges type?)) ∧ type? e.id = some t
  | .number _ _, _, _, _, h, hl => marks_of_conclude h hl rfl
  | .string _ _, _, _, _, h, hl => marks_of_conclude h hl rfl
  | .unreachable _, _, _, _, h, hl => marks_of_conclude h hl rfl
  | .void _, _, _, _, h, hl => marks_of_conclude h hl rfl
  | .symbol _ _, _, _, _, h, _ => absurd h not_gives_fail
  | .cast _ _ _, _, _, _, h, _ => absurd h not_gives_fail
  | .binary n op l r, E, t, _, h, hl => by
    rw [check] at h
    obtain ⟨_, -, h0⟩ := h.of_bind_of_nil (notes_ofExcept _ _)
    obtain ⟨_, _, _, h1, hrest, rfl⟩ := gives_bind_iff.mp h0
    obtain ⟨_, _, _, h2, hself, rfl⟩ := gives_bind_iff.mp hrest
    obtain ⟨hl1, hl⟩ := hl.append
    obtain ⟨hl2, hl⟩ := hl.append
    obtain ⟨hm, ht⟩ := marks_of_conclude (e := .binary n op l r) hself hl rfl
    rw [Expr.live, List.append_assoc]
    exact ⟨(marks_of_check ret l h1 hl1).1.append ((marks_of_check ret r h2 hl2).1.append hm), ht⟩
  | .unary n op e, E, t, _, h, hl => by
    rw [check] at h
    obtain ⟨_, -, h0⟩ := h.of_bind_of_nil (notes_ofExcept _ _)
    obtain ⟨_, _, _, h1, hself, rfl⟩ := gives_bind_iff.mp h0
    obtain ⟨hl1, hl⟩ := hl.append
    obtain ⟨hm, ht⟩ := marks_of_conclude (e := .unary n op e) hself hl rfl
    exact ⟨(marks_of_check ret e h1 hl1).1.append hm, ht⟩
  | .block n b, E, t, _, h, hl => by
    rw [check] at h
    obtain ⟨_, _, _, h1, hself, rfl⟩ := gives_bind_iff.mp h
    obtain ⟨hl1, hl⟩ := hl.append
    obtain ⟨hm, ht⟩ := marks_of_conclude (e := .block n b) hself hl rfl
    exact ⟨(marks_of_checkBlock ret b (by decide) h1 hl1).append hm, ht⟩
  | .ret n v, E, t, _, h, hl => by
    rw [check] at h
    obtain ⟨_, _, _, h1, hrest, rfl⟩ := gives_bind_iff.mp h
    obtain ⟨_, -, hself⟩ := hrest.of_bind_of_nil (notes_concludeReturn _ _ _)
    obtain ⟨hl1, hl⟩ := hl.append
    obtain ⟨hm, ht⟩ := marks_of_conclude (e := .ret n v) hself hl rfl
    exact ⟨(marks_of_checkOptional ret v h1 hl1).append hm, ht⟩
  | .cond n c th el, E, t, _, h, hl => by
    rw [check] at h
    obtain ⟨_, _, _, h1, hrest, rfl⟩ := gives_bind_iff.mp h
    obtain ⟨_, _, _, h2, hrest', rfl⟩ := gives_bind_iff.mp hrest
    obtain ⟨_, _, _, h3, hend, rfl⟩ := gives_bind_iff.mp hrest'
    obtain ⟨_, -, hself⟩ := hend.of_bind_of_nil (notes_compare _ _ _)
    obtain ⟨hl1, hl⟩ := hl.append
    obtain ⟨hl2, hl⟩ := hl.append
    obtain ⟨hl3, hl⟩ := hl.append
    obtain ⟨hm, ht⟩ := marks_of_conclude (e := .cond n c th el) hself hl rfl
    rw [Expr.live, List.append_assoc, List.append_assoc]
    exact ⟨(marks_of_check ret c h1 hl1).1.append ((marks_of_checkOptional ret el h2 hl2).append
      ((marks_of_check ret th h3 hl3).1.append hm)), ht⟩
  | .call n callee args, E, t, l, h, hl => by
    cases callee with
    | symbol m name =>
      -- found or not, the arguments are checked
      have hrest : ∀ {params u}, (s.checkArgs ret params args >>= fun _ =>
          s.conclude n E u).Gives t l →
          Marks l ((Expr.call n (.symbol m name) args).live (Expr.diverges type?)) ∧
            type? (Expr.call n (.symbol m name) args).id = some t := by
        intro params u h'
        obtain ⟨_, _, _, h1, hself, rfl⟩ := gives_bind_iff.mp h'
        obtain ⟨hl1, hl⟩ := hl.append
        obtain ⟨hm, ht⟩ := marks_of_conclude (e := .call n (.symbol m name) args) hself hl rfl
        exact ⟨(marks_of_checkArgs ret args h1 hl1).append hm, ht⟩
      rw [check] at h
      cases hlook : s.analysis.lookupFunction s.file name with
      | none =>
        rw [hlook] at h
        obtain ⟨_, -, h'⟩ := h.of_bind_of_nil rfl
        exact hrest h'
      | some k =>
        rw [hlook] at h
        obtain ⟨sig, -, h'⟩ := h.of_bind_of_nil (notes_signature k)
        dsimp only at h'
        split at h'
        · obtain ⟨_, -, h''⟩ := h'.of_bind_of_nil rfl
          exact hrest h''
        · exact hrest h'
    | _ => exact absurd h not_gives_fail

theorem marks_of_checkOptional (ret : TypeId) : ∀ (e : Option Expr) {E : Option TypeId}
    {t : Option TypeId} {l : List (NodeId × Note)}, (s.checkOptional ret E e).Gives t l →
      Agrees type? l → Marks l (Expr.liveOptional (Expr.diverges type?) e)
  | none, _, _, _, h, _ => by
    obtain ⟨-, rfl⟩ := gives_pure_iff.mp h
    rfl
  | some e, _, _, _, h, hl => by
    obtain ⟨_, _, _, h1, hend, rfl⟩ := gives_bind_iff.mp h
    obtain ⟨-, rfl⟩ := gives_pure_iff.mp hend
    rw [List.append_nil] at hl ⊢
    exact (marks_of_check ret e h1 hl).1

theorem marks_of_checkBlock (ret : TypeId) : ∀ (b : List Expr) {last t : TypeId}
    {l : List (NodeId × Note)}, last ≠ .unreachable → (s.checkBlock ret last b).Gives t l →
      Agrees type? l → Marks l (Expr.liveBlock (Expr.diverges type?) b)
  | [], _, _, _, _, h, _ => by
    obtain ⟨-, rfl⟩ := gives_pure_iff.mp h
    rfl
  | e :: rest, last, t, l, hlast, h, hl => by
    rw [checkBlock, if_neg hlast] at h
    obtain ⟨u, _, _, h1, hrest, rfl⟩ := gives_bind_iff.mp h
    obtain ⟨hl1, hl⟩ := hl.append
    obtain ⟨hm, ht⟩ := marks_of_check ret e h1 hl1
    refine hm.append ?_
    have hdiv : Expr.diverges type? e ↔ u = .unreachable := by simp [Expr.diverges, ht]
    split
    · next hd =>
      rw [hdiv.mp hd] at hrest
      rw [← hrest.2, notes_checkBlock_unreachable]
      rfl
    · next hd => exact marks_of_checkBlock ret rest (mt hdiv.mpr hd) hrest hl

theorem marks_of_checkArgs (ret : TypeId) : ∀ (args : List Expr) {params : List (Option TypeId)}
    {u : Unit} {l : List (NodeId × Note)}, (s.checkArgs ret params args).Gives u l →
      Agrees type? l → Marks l (Expr.liveAll (Expr.diverges type?) args)
  | [], _, _, _, h, _ => by
    obtain ⟨-, rfl⟩ := gives_pure_iff.mp h
    rfl
  | e :: rest, params, _, _, h, hl => by
    rw [checkArgs] at h
    obtain ⟨_, _, _, h1, hrest, rfl⟩ := gives_bind_iff.mp h
    obtain ⟨hl1, hl⟩ := hl.append
    exact (marks_of_check ret e h1 hl1).1.append (marks_of_checkArgs ret rest hrest hl)

end

end

end Scope

end Sema
