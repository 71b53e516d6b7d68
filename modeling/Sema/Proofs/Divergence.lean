import Sema.Proofs.DeadCode
import Sema.Proofs.Erroneous
import Sema.Proofs.Refusal

/-!
Only dead code is called dead. A statement is reported to be unreachable only behind one that cannot
complete, and only what cannot complete is given the type `unreachable`; an `if` counts by its
condition and its then branch. What exactly is reported, and what exactly is given this type, can be
told from the form of the bodies that are checked.
-/

namespace Sema

namespace Expr

/-! ### What cannot complete -/

section

variable (calls : String → Bool) (branches : Bool → Option Bool → Bool)

mutual

/-- Whether control cannot get behind an expression. The functions that never return are told by
`calls`. Whether an `if` cannot complete for its branches is told by `branches`, from what is known
of the then branch and of the else branch, if there is one. -/
def stuck : Expr → Bool
  | .unreachable _ | .ret _ _ => true
  | .block _ l => stuckAny l
  | .cond _ c th el => stuck c || branches (stuck th) (stuckBranch el)
  | .call _ (.symbol _ name) args => calls name || stuckAny args
  | .call _ c args => stuck c || stuckAny args
  | .binary _ _ l r => stuck l || stuck r
  | .unary _ _ e | .cast _ e _ => stuck e
  | .number _ _ | .string _ _ | .void _ | .symbol _ _ => false

/-- Whether control cannot get through expressions that are run one after the other. -/
def stuckAny : List Expr → Bool
  | [] => false
  | e :: rest => stuck e || stuckAny rest

/-- Whether control cannot get behind a branch, if there is one. -/
def stuckBranch : Option Expr → Option Bool
  | none => none
  | some e => some (stuck e)

end

end

/-- Both ways through an `if` have to be closed; a missing else is open. -/
def eitherWay (th : Bool) (el : Option Bool) : Bool := th && el.getD false

/-- The then branch stands for the whole `if`. -/
def byThen (th : Bool) (_ : Option Bool) : Bool := th

section

variable {calls : String → Bool}

mutual

/-- What never ends by the form that decides its type cannot complete. -/
theorem stuck_of_neverEnds : ∀ e : Expr, e.neverEnds calls → e.stuck calls byThen
  | .unreachable _, _ => rfl
  | .ret _ _, _ => rfl
  | .block _ l, h => stuckAny_of_neverEndsAny l h
  | .cond _ c th el, h => by
    rw [stuck, byThen, stuck_of_neverEnds th h, Bool.or_true]
  | .call _ c args, h => by
    cases c with
    | symbol m name => exact Bool.or_eq_true_iff.mpr (.inl h)
    | _ => cases h
  | .binary _ _ _ _, h => nomatch h
  | .unary _ _ _, h => nomatch h
  | .cast _ _ _, h => nomatch h
  | .number _ _, h => nomatch h
  | .string _ _, h => nomatch h
  | .void _, h => nomatch h
  | .symbol _ _, h => nomatch h

theorem stuckAny_of_neverEndsAny : ∀ l : List Expr, neverEndsAny calls l → stuckAny calls byThen l
  | [], h => nomatch h
  | e :: rest, h => by
    rw [neverEndsAny, Bool.or_eq_true_iff] at h
    exact Bool.or_eq_true_iff.mpr
      (h.imp (stuck_of_neverEnds e) (stuckAny_of_neverEndsAny rest))

end

end

/-! ### Statements that are passed over -/

section

variable (dead : Expr → Bool)

mutual

/-- The statements that stand behind a dead one, in the order of checking. -/
def passedOver : Expr → List Expr
  | .block _ l => passedOverBlock l
  | .ret _ v => passedOverOptional v
  | .binary _ _ l r => passedOver l ++ passedOver r
  | .call _ (.symbol _ _) args => passedOverAll args
  | .call _ c args => passedOver c ++ passedOverAll args
  | .cast _ e _ | .unary _ _ e => passedOver e
  | .cond _ c th el => passedOver c ++ passedOverOptional el ++ passedOver th
  | .number _ _ | .string _ _ | .unreachable _ | .void _ | .symbol _ _ => []

def passedOverBlock : List Expr → List Expr
  | [] => []
  | e :: rest => passedOver e ++ if dead e then rest else passedOverBlock rest

def passedOverAll : List Expr → List Expr
  | [] => []
  | e :: rest => passedOver e ++ passedOverAll rest

def passedOverOptional : Option Expr → List Expr
  | none => []
  | some e => passedOver e

end

end

/-- Whether `y` is a statement of a block, behind another that is dead. -/
def Behind (dead : Expr → Bool) (y : Expr) (parts : List Expr) : Prop :=
  ∃ n before after, .block n (before ++ y :: after) ∈ parts ∧ ∃ x ∈ before, dead x

theorem Behind.mono {dead : Expr → Bool} {y : Expr} {parts parts' : List Expr}
    (h : Behind dead y parts) (hp : parts ⊆ parts') : Behind dead y parts' := by
  obtain ⟨n, before, after, hmem, hdead⟩ := h
  exact ⟨n, before, after, hp hmem, hdead⟩

theorem Behind.imp {dead dead' : Expr → Bool} {y : Expr} {parts : List Expr}
    (h : Behind dead y parts) (hd : ∀ x, dead x → dead' x) : Behind dead' y parts := by
  obtain ⟨n, before, after, hmem, x, hx, hdead⟩ := h
  exact ⟨n, before, after, hmem, x, hx, hd x hdead⟩

/-- Whether a block among some expressions goes on behind a dead statement. -/
def goesOn (dead : Expr → Bool) (parts : List Expr) : Bool :=
  parts.any fun
    | .block _ l => l.dropLast.any dead
    | _ => false

theorem Behind.goesOn {dead : Expr → Bool} {y : Expr} {parts : List Expr}
    (h : Behind dead y parts) : goesOn dead parts := by
  obtain ⟨n, before, after, hmem, x, hx, hdead⟩ := h
  refine List.any_eq_true.mpr ⟨_, hmem, ?_⟩
  dsimp only
  rw [List.dropLast_append_cons]
  exact List.any_eq_true.mpr ⟨x, List.mem_append_left _ hx, hdead⟩

section

variable {dead : Expr → Bool} {y : Expr}

/-- In a block a statement is passed over for one before it, or within another statement. -/
theorem mem_passedOverBlock : ∀ {l : List Expr}, y ∈ passedOverBlock dead l →
    y ∈ passedOverAll dead l ∨ ∃ before after, l = before ++ y :: after ∧ ∃ x ∈ before, dead x
  | [], h => nomatch h
  | e :: rest, h => by
    rw [passedOverBlock, List.mem_append] at h
    rcases h with h | h
    · exact .inl (List.mem_append_left _ h)
    · split at h
      · next hdead =>
        obtain ⟨before, after, rfl⟩ := List.append_of_mem h
        exact .inr ⟨e :: before, after, rfl, e, List.mem_cons_self, hdead⟩
      · rcases mem_passedOverBlock h with h | ⟨before, after, rfl, x, hx, hdead⟩
        · exact .inl (List.mem_append_right _ h)
        · exact .inr ⟨e :: before, after, rfl, x, List.mem_cons_of_mem _ hx, hdead⟩

mutual

/-- What is passed over stands behind a dead statement, of the same block. -/
theorem behind_of_mem_passedOver : ∀ e : Expr, y ∈ e.passedOver dead → Behind dead y e.parts
  | .block n l, h => by
    rw [parts]
    rcases mem_passedOverBlock h with h | ⟨before, after, rfl, hdead⟩
    · exact (behind_of_mem_passedOverAll l h).mono (List.subset_append_left _ _)
    · exact ⟨n, before, after, List.mem_append_right _ (List.mem_singleton_self _), hdead⟩
  | .ret _ v, h => (behind_of_mem_passedOverOptional v h).mono (List.subset_append_left _ _)
  | .binary _ _ l r, h => by
    rw [parts, List.append_assoc]
    rcases List.mem_append.mp h with h | h
    · exact (behind_of_mem_passedOver l h).mono (List.subset_append_left _ _)
    · exact (behind_of_mem_passedOver r h).mono fun _ hx =>
        List.mem_append_right _ (List.mem_append_left _ hx)
  | .call n c args, h => by
    rw [parts, List.append_assoc]
    have hargs (h : y ∈ passedOverAll dead args) :=
      (behind_of_mem_passedOverAll args h).mono fun _ hx =>
        List.mem_append_right c.parts (List.mem_append_left [.call n c args] hx)
    have hcallee := behind_of_mem_passedOver c
    cases c with
    | symbol m name => exact hargs h
    | _ =>
      rcases List.mem_append.mp h with h | h
      · exact (hcallee h).mono (List.subset_append_left _ _)
      · exact hargs h
  | .cast _ e _, h => (behind_of_mem_passedOver e h).mono (List.subset_append_left _ _)
  | .unary _ _ e, h => (behind_of_mem_passedOver e h).mono (List.subset_append_left _ _)
  | .cond _ c th el, h => by
    rw [parts, List.append_assoc, List.append_assoc]
    rw [passedOver, List.mem_append, List.mem_append] at h
    rcases h with (h | h) | h
    · exact (behind_of_mem_passedOver c h).mono (List.subset_append_left _ _)
    · exact (behind_of_mem_passedOverOptional el h).mono fun _ hx =>
        List.mem_append_right _ (List.mem_append_left _ hx)
    · exact (behind_of_mem_passedOver th h).mono fun _ hx =>
        List.mem_append_right _ (List.mem_append_right _ (List.mem_append_left _ hx))
  | .number _ _, h => nomatch h
  | .string _ _, h => nomatch h
  | .unreachable _, h => nomatch h
  | .void _, h => nomatch h
  | .symbol _ _, h => nomatch h

theorem behind_of_mem_passedOverAll : ∀ l : List Expr, y ∈ passedOverAll dead l →
    Behind dead y (partsAll l)
  | [], h => nomatch h
  | e :: rest, h => by
    rcases List.mem_append.mp h with h | h
    · exact (behind_of_mem_passedOver e h).mono (List.subset_append_left _ _)
    · exact (behind_of_mem_passedOverAll rest h).mono (List.subset_append_right _ _)

theorem behind_of_mem_passedOverOptional : ∀ e : Option Expr, y ∈ passedOverOptional dead e →
    Behind dead y (partsOptional e)
  | none, h => nomatch h
  | some e, h => behind_of_mem_passedOver e h

end

end

end Expr

/-! ### What a run tells of dead code -/

/-- The definition whose body is checked, if there is one; notes tell which are left out. -/
def Decl.checked (t : Notes) : Decl → List FnDef
  | .fnDef d => if t.isSkipped d.node.id then [] else [d]
  | _ => []

theorem Decl.eq_of_mem_checked {t : Notes} {d : Decl} {b : FnDef} (h : b ∈ d.checked t) :
    d = .fnDef b := by
  cases d with
  | fnDef d =>
    rw [checked] at h
    split at h
    · cases h
    · rw [List.mem_singleton.mp h]
  | _ => cases h

theorem Notes.exprType?_eq_some_iff {t : Notes} {n : NodeId} {i : TypeId} :
    t.exprType? n = some i ↔ t.get? n = some (.expr i) := by
  unfold exprType?
  split
  · next h => rw [h, Option.some.injEq, Option.some.injEq, Note.expr.injEq]
  · next h =>
    constructor
    · exact fun h' => nomatch h'
    · exact fun h' => absurd h' (h i)

theorem Expr.eq_of_mem_deadFindings {path : String} {e : Expr} {f : Finding}
    (h : f ∈ e.deadFindings path) : f = ⟨path, e.pos, .unreachableCode⟩ := by
  unfold deadFindings at h
  split at h
  · cases h
  · exact List.mem_singleton.mp h

def Finding.isDeadCode (f : Finding) : Bool := f.issue = .unreachableCode

namespace Checked

variable {α β : Type} {path : String} {passed passed' marked marked' : List Expr}

/-- Whether a run, if it ends with a value, reports the code that is passed over and no other to be
dead, and gives the type `unreachable` to the expressions that are marked and to no others. -/
def Cuts (path : String) (passed marked : List Expr) (x : Checked α) : Prop :=
  ∀ v, x.outcome = .ok v →
    x.findings.filter Finding.isDeadCode = passed.flatMap (Expr.deadFindings path) ∧
    (x.notes.filter fun s => s.2 = .expr .unreachable).map Prod.fst = marked.map Expr.id

namespace Cuts

theorem fail (e : AnalysisError) : (Checked.fail e : Checked α).Cuts path passed marked :=
  fun _ h => nomatch h

/-- A run that finds no dead code and notes nothing. -/
theorem of_quiet {x : Checked α} (hf : x.findings.filter Finding.isDeadCode = [])
    (hn : x.notes = []) : x.Cuts path [] [] :=
  fun _ _ => ⟨hf, by rw [hn]; rfl⟩

theorem bind {x : Checked α} {f : α → Checked β} (hx : x.Cuts path passed marked)
    (hf : ∀ v, x.outcome = .ok v → (f v).Cuts path passed' marked') :
    (x >>= f).Cuts path (passed ++ passed') (marked ++ marked') := by
  intro w hw
  obtain ⟨v, hv, hfv⟩ := outcome_of_bind hw
  obtain ⟨hfound, hnoted⟩ := hx v hv
  obtain ⟨hfound', hnoted'⟩ := hf v hv w hfv
  rw [bind_of_ok hv]
  exact ⟨by rw [List.filter_append, hfound, hfound', List.flatMap_append],
    by rw [List.filter_append, List.map_append, hnoted, hnoted', List.map_append]⟩

/-- What comes first says nothing. -/
theorem bind_quiet {x : Checked α} {f : α → Checked β} (hx : x.Cuts path [] [])
    (hf : ∀ v, x.outcome = .ok v → (f v).Cuts path passed marked) :
    (x >>= f).Cuts path passed marked := hx.bind hf

/-- What comes last says nothing. -/
theorem then_quiet {x : Checked α} {f : α → Checked β} (hx : x.Cuts path passed marked)
    (hf : ∀ v, (f v).Cuts path [] []) : (x >>= f).Cuts path passed marked := by
  have h := hx.bind fun v _ => hf v
  rwa [List.append_nil, List.append_nil] at h

end Cuts

theorem cuts_ofOption (e : AnalysisError) (o : Option α) : (ofOption e o).Cuts path [] [] := by
  cases o <;> exact .of_quiet rfl rfl

theorem cuts_ofExcept {ε : Type} (f : ε → AnalysisError) (r : Except ε α) :
    (ofExcept f r).Cuts path [] [] := by
  cases r <;> exact .of_quiet rfl rfl

end Checked

namespace Scope

open Checked
open Sema.Expr (neverEnds neverEndsAny passedOver passedOverBlock passedOverAll passedOverOptional
  live liveBlock liveAll liveOptional)

variable {s : Scope} {calls : String → Bool} {ret : TypeId}

theorem cuts_compare (pos : Position) (E : Option TypeId) (t : TypeId) :
    (s.compare pos E t).Cuts s.path [] [] := by
  unfold compare
  split
  · exact .of_quiet rfl rfl
  · split
    · exact .of_quiet rfl rfl
    · exact (cuts_ofOption _ _).bind_quiet fun _ _ => (cuts_ofOption _ _).bind_quiet fun _ _ =>
        .of_quiet rfl rfl

theorem cuts_concludeReturn (node : Node) (ret t : TypeId) :
    (s.concludeReturn node ret t).Cuts s.path [] [] := by
  unfold concludeReturn
  split
  · exact Cuts.bind_quiet (.of_quiet rfl rfl) fun _ _ => cuts_compare _ _ _
  · exact cuts_compare _ _ _

/-- An expression ends with a note on itself, which is marked if its type is `unreachable`. -/
theorem cuts_conclude {dead : Expr → Bool} {node : Node} {E : Option TypeId} {t : TypeId} {e : Expr}
    (he : e.id = node.id) (ht : t = .unreachable ↔ dead e) :
    (s.conclude node E t).Cuts s.path [] ([e].filter dead) := by
  refine (cuts_compare _ _ _).bind_quiet fun _ _ => Cuts.then_quiet (fun _ _ => ⟨rfl, ?_⟩) fun _ =>
    .of_quiet rfl rfl
  by_cases hd : dead e
  · simp [Checked.note, ht.mpr hd, hd, he]
  · simp [Checked.note, mt ht.mp hd, hd]

theorem cuts_checkBlock_unreachable (l : List Expr) :
    (s.checkBlock ret .unreachable l).Cuts s.path l [] := by
  rw [checkBlock_unreachable]
  refine fun _ _ => ⟨?_, rfl⟩
  dsimp only
  rw [List.filter_eq_self]
  intro f hf
  obtain ⟨e, -, he⟩ := List.mem_flatMap.mp hf
  rw [Expr.eq_of_mem_deadFindings he]
  rfl

mutual

/-- What is passed over for the form of an expression is what is found to be dead code, and the live
parts that never end by their form are those of the type `unreachable`. -/
theorem cuts_check (hl : s.analysis.Linked) (hc : s.TellsCalls calls) :
    ∀ (e : Expr) (E : Option TypeId), (s.check ret E e).Cuts s.path
      (passedOver (neverEnds calls) e) ((live (neverEnds calls) e).filter (neverEnds calls))
  | .number _ _, _ => cuts_conclude rfl (by simp [neverEnds])
  | .string _ _, _ => cuts_conclude rfl (by simp [neverEnds])
  | .void _, _ => cuts_conclude rfl (by simp [neverEnds])
  | .unreachable _, _ => cuts_conclude rfl (by simp [neverEnds])
  | .symbol _ _, _ => .fail _
  | .cast _ _ _, _ => .fail _
  | .binary n op l r, E => by
    rw [check, live, List.filter_append, List.filter_append, passedOver,
      ← List.append_nil (_ ++ _), List.append_assoc, List.append_assoc]
    refine (cuts_ofExcept _ _).bind_quiet fun rule hrule => ?_
    have hne : rule.result ≠ .unreachable := by
      cases op <;> cases hrule <;> decide
    exact (cuts_check hl hc l _).bind fun _ _ => (cuts_check hl hc r _).bind fun _ _ =>
      cuts_conclude rfl (by simp [hne, neverEnds])
  | .unary n op e, E => by
    rw [check, live, List.filter_append, passedOver, ← List.append_nil (passedOver _ _)]
    refine (cuts_ofExcept _ _).bind_quiet fun rule hrule => ?_
    have hne : rule.result ≠ .unreachable := by
      cases op with
      | not => cases hrule; decide
      | _ => cases hrule
    exact (cuts_check hl hc e _).bind fun _ _ => cuts_conclude rfl (by simp [hne, neverEnds])
  | .block n l, E => by
    rw [check, live, List.filter_append, passedOver, ← List.append_nil (passedOverBlock _ _)]
    refine (cuts_checkBlock hl hc l (by decide)).bind fun t ht => cuts_conclude rfl ?_
    simpa [neverEnds] using type_of_checkBlock hl hc l ht
  | .ret n v, E => by
    rw [check, live, List.filter_append, passedOver, ← List.append_nil (passedOverOptional _ _)]
    exact (cuts_checkOptional hl hc v _).bind fun _ _ =>
      (cuts_concludeReturn _ _ _).bind_quiet fun _ _ => cuts_conclude rfl (by simp [neverEnds])
  | .cond n c th el, E => by
    rw [check, live, List.filter_append, List.filter_append, List.filter_append, passedOver,
      ← List.append_nil (_ ++ _), List.append_assoc, List.append_assoc, List.append_assoc,
      List.append_assoc]
    exact (cuts_check hl hc c _).bind fun _ _ => (cuts_checkOptional hl hc el _).bind fun _ _ =>
      (cuts_check hl hc th _).bind fun _ ht => (cuts_compare _ _ _).bind_quiet fun _ _ =>
        cuts_conclude rfl (type_of_check hl hc th ht)
  | .call n callee args, E => by
    cases callee with
    | symbol m name =>
      -- found or not, the arguments are checked
      have hrest : ∀ params {t}, (t = .unreachable ↔ calls name) →
          (s.checkArgs ret params args >>= fun _ => s.conclude n E t).Cuts s.path
            (passedOver (neverEnds calls) (.call n (.symbol m name) args))
            ((live (neverEnds calls) (.call n (.symbol m name) args)).filter
              (neverEnds calls)) := by
        intro params t ht
        rw [live, List.filter_append, passedOver, ← List.append_nil (passedOverAll _ _)]
        exact (cuts_checkArgs hl hc args params).bind fun _ _ => cuts_conclude rfl ht
      rw [check]
      rcases hl.env_cases s.file s.path name with ⟨hlook, henv⟩ | ⟨k, sig, hlook, henv, hsig⟩
      · rw [hlook]
        have hnot : TypeId.invalid = .unreachable ↔ calls name := by
          rw [hc, henv]
          simp
        exact Cuts.bind_quiet (.of_quiet rfl rfl) fun _ _ => hrest [] hnot
      · have hiff : sig.result = .unreachable ↔ calls name := by
          rw [hc, henv]
          simp
        simp only [hlook, hsig]
        refine Cuts.bind_quiet (.of_quiet rfl rfl) ?_
        rintro _ ⟨⟩
        dsimp only
        split
        · exact Cuts.bind_quiet (.of_quiet rfl rfl) fun _ _ => hrest _ hiff
        · exact hrest _ hiff
    | _ => exact .fail _

theorem cuts_checkOptional (hl : s.analysis.Linked) (hc : s.TellsCalls calls) :
    ∀ (e : Option Expr) (E : Option TypeId), (s.checkOptional ret E e).Cuts s.path
      (passedOverOptional (neverEnds calls) e)
      ((liveOptional (neverEnds calls) e).filter (neverEnds calls))
  | none, _ => .of_quiet rfl rfl
  | some e, E => (cuts_check hl hc e E).then_quiet fun _ => .of_quiet rfl rfl

theorem cuts_checkBlock (hl : s.analysis.Linked) (hc : s.TellsCalls calls) :
    ∀ (l : List Expr) {last : TypeId}, last ≠ .unreachable → (s.checkBlock ret last l).Cuts s.path
      (passedOverBlock (neverEnds calls) l)
      ((liveBlock (neverEnds calls) l).filter (neverEnds calls))
  | [], _, _ => .of_quiet rfl rfl
  | e :: rest, last, hlast => by
    rw [checkBlock, if_neg hlast, passedOverBlock, liveBlock, List.filter_append]
    refine (cuts_check hl hc e none).bind fun t ht => ?_
    have htype := type_of_check hl hc e ht
    by_cases hdead : e.neverEnds calls
    · rw [if_pos hdead, if_pos hdead, htype.mpr hdead]
      exact cuts_checkBlock_unreachable rest
    · rw [if_neg hdead, if_neg hdead]
      exact cuts_checkBlock hl hc rest (mt htype.mp hdead)

theorem cuts_checkArgs (hl : s.analysis.Linked) (hc : s.TellsCalls calls) :
    ∀ (l : List Expr) (params : List (Option TypeId)), (s.checkArgs ret params l).Cuts s.path
      (passedOverAll (neverEnds calls) l) ((liveAll (neverEnds calls) l).filter (neverEnds calls))
  | [], _ => .of_quiet rfl rfl
  | e :: rest, params => by
    rw [checkArgs, liveAll, List.filter_append]
    exact (cuts_check hl hc e _).bind fun _ _ => cuts_checkArgs hl hc rest _

end

theorem cuts_checkDecl (hl : s.analysis.Linked) (hc : s.TellsCalls calls) (d : Decl) :
    (s.checkDecl d).Cuts s.path
      ((d.checked s.analysis.notes).flatMap fun d => passedOver (neverEnds calls) d.body)
      ((d.checked s.analysis.notes).flatMap fun d =>
        (live (neverEnds calls) d.body).filter (neverEnds calls)) := by
  cases d with
  | fnDef d =>
    rw [checkDecl, checkDefinition, Decl.checked]
    split
    · exact .of_quiet rfl rfl
    · rw [List.flatMap_singleton, List.flatMap_singleton]
      exact (cuts_ofOption _ _).bind_quiet fun _ _ => (cuts_check hl hc d.body _).then_quiet
        fun _ _ _ => ⟨rfl, rfl⟩
  | externalBlock b => exact .of_quiet rfl rfl
  | rootExport e => exact .of_quiet rfl rfl
  | use u =>
    rw [checkDecl, forM_of_ok fun _ _ => rfl]
    refine .of_quiet (List.filter_eq_nil_iff.mpr fun f hf => ?_)
      (List.flatMap_eq_nil_iff.mpr fun _ _ => rfl)
    obtain ⟨d, -, hf⟩ := List.mem_flatMap.mp hf
    rw [List.mem_singleton.mp hf]
    exact Bool.false_ne_true

/-- A definition whose body is checked is noted to be so. -/
theorem noted_checkDefinition {d : FnDef} (hskip : s.analysis.notes.isSkipped d.node.id = false)
    (h : (s.checkDefinition d).outcome = .ok ()) :
    ∃ t, (d.node.id, .fnDef false t) ∈ (s.checkDefinition d).notes := by
  rw [checkDefinition, if_neg (Bool.eq_false_iff.mp hskip)] at h ⊢
  obtain ⟨ret, hret, h⟩ := outcome_of_bind h
  obtain ⟨t, ht, h⟩ := outcome_of_bind h
  rw [bind_of_ok hret, bind_of_ok ht]
  refine ⟨some t, List.mem_append_right _ (List.mem_append_right _ ?_)⟩
  exact List.mem_singleton_self _

end Scope

/-! ### Programs -/

namespace Program

variable {p : Program} {options : BuildOptions} {a b : Analysis}

/-- Whether the function that a name leads to in a file is declared to return `unreachable`. -/
def neverReturns (p : Program) (file : Nat) (name : String) : Bool :=
  (Function.visible file name p.functions).any (·.proto.returnType.ty = .unreachable)

/-- Whether an expression of a file cannot complete, where `branches` tells how an `if` counts. -/
def stuck (p : Program) (branches : Bool → Option Bool → Bool) (file : Nat) : Expr → Bool :=
  Expr.stuck (p.neverReturns file) branches

/-- Whether a result calls only dead code dead. A statement is reported to be unreachable only behind
another of its block that cannot complete, and only expressions that cannot complete are noted to be
of the type `unreachable`. -/
structure OnlyDead (p : Program) (branches : Bool → Option Bool → Bool) (b : Analysis) : Prop where
  reported : ∀ f ∈ b.findings, f.issue = .unreachableCode → ∃ c d, (c, Decl.fnDef d) ∈ p.decls ∧
    ∃ y, f = ⟨c.path, y.pos, .unreachableCode⟩ ∧
      Expr.Behind (p.stuck branches c.index) y d.body.parts
  noted : ∀ n, b.notes.exprType? n = some .unreachable → ∃ c d, (c, Decl.fnDef d) ∈ p.decls ∧
    ∃ e ∈ d.body.parts, e.id = n ∧ p.stuck branches c.index e

/-- The definitions whose bodies are checked, each with its file. -/
def checkedBodies (p : Program) (t : Notes) : List (FileContext × FnDef) :=
  p.decls.flatMap fun x => (x.2.checked t).map (x.1, ·)

/-- What exactly a result calls dead: the statements that are passed over, but for `void` markers, are
reported in order, and the live expressions that never end by their form are of the type
`unreachable`. -/
structure DeadTold (p : Program) (b : Analysis) : Prop where
  reports : b.findings.filter Finding.isDeadCode = (p.checkedBodies b.notes).flatMap fun x =>
    (x.2.body.passedOver (p.neverEnds x.1.index)).flatMap (Expr.deadFindings x.1.path)
  marks : ∀ n, b.notes.exprType? n = some .unreachable ↔ ∃ x ∈ p.checkedBodies b.notes,
    ∃ e ∈ x.2.body.live (p.neverEnds x.1.index), e.id = n ∧ p.neverEnds x.1.index e

/-- Signatures have notes on written types and on definitions only. -/
theorem get?_ne_expr (h : (Analysis.initial options).Runs p.readings a) (n : NodeId) (t : TypeId) :
    a.notes.get? n ≠ some (.expr t) := by
  intro hget
  have hwritten : a.notes.written = p.readings.flatMap Reading.noted := h.written
  have hmem := Notes.mem_written_of_get? hget
  rw [hwritten] at hmem
  rcases mem_flatMap_noted_iff.mp hmem with ⟨hkind, -⟩ | ⟨hkind, -⟩
  · cases hkind
  · cases hkind

/-- What never ends by its form cannot complete. -/
theorem stuck_of_neverEnds {file : Nat} {e : Expr} (h : p.neverEnds file e) :
    p.stuck Expr.byThen file e := Expr.stuck_of_neverEnds e h

theorem mem_decls_of_mem_checkedBodies {t : Notes} {x : FileContext × FnDef}
    (h : x ∈ p.checkedBodies t) : (x.1, Decl.fnDef x.2) ∈ p.decls := by
  obtain ⟨⟨c, d⟩, hy, hx⟩ := List.mem_flatMap.mp h
  obtain ⟨e, he, rfl⟩ := List.mem_map.mp hx
  obtain rfl := Decl.eq_of_mem_checked he
  exact hy

theorem DeadTold.onlyDead (h : p.DeadTold b) : p.OnlyDead Expr.byThen b where
  reported := by
    intro f hf hissue
    have hdead : f.isDeadCode := decide_eq_true hissue
    have hmem := List.mem_filter.mpr ⟨hf, hdead⟩
    rw [h.reports] at hmem
    obtain ⟨x, hx, hmem⟩ := List.mem_flatMap.mp hmem
    obtain ⟨y, hy, hfy⟩ := List.mem_flatMap.mp hmem
    refine ⟨x.1, x.2, mem_decls_of_mem_checkedBodies hx, y, Expr.eq_of_mem_deadFindings hfy, ?_⟩
    exact (Expr.behind_of_mem_passedOver _ hy).imp fun _ => stuck_of_neverEnds
  noted := by
    intro n hn
    obtain ⟨x, hx, e, he, hid, hdead⟩ := (h.marks n).mp hn
    exact ⟨x.1, x.2, mem_decls_of_mem_checkedBodies hx, e, Expr.mem_parts_of_mem_live _ he, hid,
      stuck_of_neverEnds hdead⟩

section

variable {notes : Notes}
  (ha : (Analysis.initial options).readFiles p.entry.toNat 0 p.files = .ok a)
  (hall : ∀ r ∈ p.readings, ((Scope.ofReading a r).checkDecl r.decl).outcome = .ok ())
  (hnotes : a.notes.RecordedAll (p.readings.flatMap fun r =>
    ((Scope.ofReading a r).checkDecl r.decl).notes) notes)

include ha in
theorem cuts_reading (r : Reading) : ((Scope.ofReading a r).checkDecl r.decl).Cuts r.context.path
    ((r.decl.checked a.notes).flatMap fun d => d.body.passedOver (p.neverEnds r.context.index))
    ((r.decl.checked a.notes).flatMap fun d =>
      (d.body.live (p.neverEnds r.context.index)).filter (p.neverEnds r.context.index)) :=
  Scope.cuts_checkDecl (signatures_ok ha).1.linked (tellsCalls ha _ _) r.decl

include hall hnotes in
/-- Whose bodies are checked is told by the notes before and after. -/
theorem checkedBodies_eq : p.checkedBodies notes = p.checkedBodies a.notes := by
  refine List.flatMap_congr fun x hx => congrArg _ ?_
  obtain ⟨c, d⟩ := x
  cases d with
  | fnDef d =>
    have hskip : notes.isSkipped d.node.id = a.notes.isSkipped d.node.id := by
      cases hskip : a.notes.isSkipped d.node.id with
      | true =>
        rw [Notes.isSkipped] at hskip ⊢
        split at hskip
        · next hget => rw [hnotes.within _ _ hget, hskip]
        · cases hskip
      | false =>
        obtain ⟨r, hr, rfl, hd⟩ := exists_reading hx
        have hok := hall r hr
        rw [hd] at hok
        obtain ⟨t, ht⟩ := Scope.noted_checkDefinition hskip hok
        have hmem : (d.node.id, Note.fnDef false t) ∈ p.readings.flatMap fun r =>
            ((Scope.ofReading a r).checkDecl r.decl).notes :=
          List.mem_flatMap.mpr ⟨r, hr, by rw [hd]; exact ht⟩
        rw [Notes.isSkipped, hnotes.get? _ hmem]
    rw [Decl.checked, Decl.checked, hskip]
  | _ => rfl

include ha hall in
theorem reports_checkFiles : (p.readings.flatMap fun r =>
      ((Scope.ofReading a r).checkDecl r.decl).findings).filter Finding.isDeadCode =
    (p.checkedBodies a.notes).flatMap fun x =>
      (x.2.body.passedOver (p.neverEnds x.1.index)).flatMap (Expr.deadFindings x.1.path) := by
  rw [List.filter_flatMap, checkedBodies, List.flatMap_assoc, flatMap_decls]
  refine List.flatMap_congr fun r hr => ?_
  rw [(cuts_reading ha r () (hall r hr)).1, List.flatMap_map, List.flatMap_assoc]

include ha hall in
theorem marks_checkFiles (n : NodeId) : (n, Note.expr .unreachable) ∈ (p.readings.flatMap fun r =>
      ((Scope.ofReading a r).checkDecl r.decl).notes) ↔
    ∃ x ∈ p.checkedBodies a.notes,
      ∃ e ∈ x.2.body.live (p.neverEnds x.1.index), e.id = n ∧ p.neverEnds x.1.index e := by
  have hcuts := fun r hr => (cuts_reading ha r () (hall r hr)).2
  constructor
  · intro hn
    obtain ⟨r, hr, hn⟩ := List.mem_flatMap.mp hn
    have hmarked := List.mem_filter (p := fun s : NodeId × Note => s.2 = .expr .unreachable).mpr
      ⟨hn, decide_eq_true rfl⟩
    have hmem := List.mem_map_of_mem (f := Prod.fst) hmarked
    rw [hcuts r hr, List.mem_map] at hmem
    obtain ⟨e, he, hid⟩ := hmem
    obtain ⟨d, hd, he⟩ := List.mem_flatMap.mp he
    obtain ⟨hlive, hdead⟩ := List.mem_filter.mp he
    exact ⟨(r.context, d), List.mem_flatMap.mpr ⟨(r.context, r.decl), mem_decls_of_mem_readings hr,
      List.mem_map_of_mem hd⟩, e, hlive, hid, hdead⟩
  · rintro ⟨x, hx, e, he, rfl, hdead⟩
    obtain ⟨⟨c, d⟩, hdecl, hx⟩ := List.mem_flatMap.mp hx
    obtain ⟨f, hf, rfl⟩ := List.mem_map.mp hx
    obtain ⟨r, hr, rfl, rfl⟩ := exists_reading hdecl
    have hmem : e.id ∈ ((r.decl.checked a.notes).flatMap fun d =>
        (d.body.live (p.neverEnds r.context.index)).filter
          (p.neverEnds r.context.index)).map Expr.id :=
      List.mem_map_of_mem (List.mem_flatMap.mpr ⟨f, hf, List.mem_filter.mpr ⟨he, hdead⟩⟩)
    rw [← hcuts r hr, List.mem_map] at hmem
    obtain ⟨⟨n, note⟩, hmarked, rfl : n = e.id⟩ := hmem
    obtain ⟨hn, hnote⟩ := List.mem_filter.mp hmarked
    obtain rfl : note = .expr .unreachable := of_decide_eq_true hnote
    exact List.mem_flatMap.mpr ⟨r, hr, hn⟩

end

theorem deadTold_of_analyze (h : p.analyze options = .ok b) : p.DeadTold b := by
  obtain ⟨a, notes, ha, hnotes, hok, rfl⟩ := analyze_eq_ok_iff.mp h
  have hruns := (signatures_ok ha).2
  have hrecorded := Notes.recordedAll hnotes
  rw [checkFiles_eq] at hrecorded hok
  have hall := Checked.outcome_forM_iff.mp hok
  rw [Checked.forM_of_ok hall] at hrecorded
  constructor
  · have hsignatures := filter_signatures_eq_nil (q := Finding.isDeadCode) hruns fun f hf => by
      rw [of_decide_eq_true hf]
      rfl
    have houtput : (Analysis.outputFindings p a.output).filter Finding.isDeadCode = [] := by
      rw [List.filter_eq_nil_iff]
      intro f hf hdead
      rcases issue_of_mem_outputFindings hf with hi | hi
      · cases hi.symm.trans (of_decide_eq_true hdead)
      · cases hi.symm.trans (of_decide_eq_true hdead)
    dsimp only
    rw [checkedBodies_eq hall hrecorded, ← reports_checkFiles ha hall, checkFiles_eq,
      Checked.forM_of_ok hall, List.filter_append, List.filter_append, hsignatures, houtput,
      List.nil_append, List.append_nil]
  · intro n
    dsimp only
    rw [checkedBodies_eq hall hrecorded, ← marks_checkFiles ha hall, Notes.exprType?_eq_some_iff]
    constructor
    · intro hget
      exact (hrecorded.old_or_new _ _ hget).resolve_left (get?_ne_expr hruns n _)
    · exact fun hn => hrecorded.get? _ hn

/-- Only dead code is called dead, if the then branch stands for an `if`, and which of it is can be
told. -/
theorem onlyDead_of_analyze (h : p.analyze options = .ok b) :
    p.OnlyDead Expr.byThen b ∧ p.DeadTold b :=
  ⟨(deadTold_of_analyze h).onlyDead, deadTold_of_analyze h⟩

end Program

/-! ### An if with an open else -/

/-- `{ if (1 == 1) { return; } else {} 2; }`, in a function without a result. -/
def FnDef.halfOpen : FnDef :=
  ⟨.onLine 2, ⟨.onLine 3, "main", .fileOnly, [], .named (.onLine 4) "void", []⟩,
    .block (.onLine 5) [
      .cond (.onLine 6)
        (.binary (.onLine 7) .equal (.number (.onLine 8) "1") (.number (.onLine 9) "1"))
        (.block (.onLine 10) [.ret (.onLine 11) none])
        (some (.block (.onLine 12) [])),
      .number (.onLine 13) "2"]⟩

namespace Program

def halfOpen : Program where
  files := [⟨"main.kiln", .onLine 1, [.fnDef .halfOpen]⟩]
  entry := 0

theorem halfOpen_ok : ∃ b, halfOpen.analyze ⟨some "app", some .executable⟩ = .ok b ∧
    b.findings = [⟨"main.kiln", (Node.onLine 13).pos, .unreachableCode⟩] := ⟨_, rfl, rfl⟩

/-- The number is reported, for the `if` before it cannot complete as far as its then branch goes. -/
theorem halfOpen_onlyDead : ∃ b, halfOpen.analyze ⟨some "app", some .executable⟩ = .ok b ∧
    b.findings = [⟨"main.kiln", (Node.onLine 13).pos, .unreachableCode⟩] ∧
    halfOpen.OnlyDead Expr.byThen b ∧ halfOpen.DeadTold b := by
  obtain ⟨b, hb, hfound⟩ := halfOpen_ok
  exact ⟨b, hb, hfound, onlyDead_of_analyze hb⟩

/-- The number is reported although the else branch leads to it. -/
theorem halfOpen_reached : ∃ b, halfOpen.analyze ⟨some "app", some .executable⟩ = .ok b ∧
    ¬ halfOpen.OnlyDead Expr.eitherWay b := by
  obtain ⟨b, hb, hfound⟩ := halfOpen_ok
  refine ⟨b, hb, fun h => ?_⟩
  obtain ⟨c, d, hd, y, -, hbehind⟩ := h.reported _ (hfound ▸ List.mem_singleton_self _) rfl
  -- there is but one declaration
  obtain ⟨rfl, hdecl⟩ := Prod.mk.inj (List.mem_singleton.mp hd)
  obtain rfl := Decl.fnDef.inj hdecl
  have hopen : Expr.goesOn (halfOpen.stuck Expr.eitherWay 0) FnDef.halfOpen.body.parts = false := by
    decide +kernel
  exact Bool.false_ne_true (hopen.symm.trans hbehind.goesOn)

end Program

end Sema
