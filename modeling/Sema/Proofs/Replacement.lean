import Mathlib.Data.List.Nodup
import Sema.Proofs.Live

/-!
Expressions in which a part is replaced. Where no two parts share an id, replacing by id replaces
one part; for a live part the way to it leads through expressions that are checked.
-/

namespace Sema

namespace Expr

mutual

/-- An expression with another in the place of its part with a given id. -/
def replace (i : NodeId) (new : Expr) (e : Expr) : Expr :=
  if e.id = i then new else
    match e with
    | .block n l => .block n (replaceAll i new l)
    | .ret n v => .ret n (replaceOptional i new v)
    | .binary n op l r => .binary n op (replace i new l) (replace i new r)
    | .call n c args => .call n (replace i new c) (replaceAll i new args)
    | .cast n e t => .cast n (replace i new e) t
    | .unary n op e => .unary n op (replace i new e)
    | .cond n c t e => .cond n (replace i new c) (replace i new t) (replaceOptional i new e)
    | .number n t => .number n t
    | .string n t => .string n t
    | .unreachable n => .unreachable n
    | .void n => .void n
    | .symbol n s => .symbol n s

def replaceAll (i : NodeId) (new : Expr) : List Expr → List Expr
  | [] => []
  | e :: rest => replace i new e :: replaceAll i new rest

def replaceOptional (i : NodeId) (new : Expr) : Option Expr → Option Expr
  | none => none
  | some e => some (replace i new e)

end

/-- Whether the second expression is the first with `new` in the place of a live part, where `dead`
tells which statements never complete. -/
inductive Swap (dead : Expr → Bool) (part new : Expr) : Expr → Expr → Prop where
  | here : Swap dead part new part new
  | statement (n : Node) {before after : List Expr} {e e' : Expr} :
      (∀ x ∈ before, dead x = false) → Swap dead part new e e' →
      Swap dead part new (.block n (before ++ e :: after)) (.block n (before ++ e' :: after))
  | ret (n : Node) {e e' : Expr} :
      Swap dead part new e e' → Swap dead part new (.ret n (some e)) (.ret n (some e'))
  | left (n : Node) (op : BinaryOp) (r : Expr) {e e' : Expr} :
      Swap dead part new e e' → Swap dead part new (.binary n op e r) (.binary n op e' r)
  | right (n : Node) (op : BinaryOp) (l : Expr) {e e' : Expr} :
      Swap dead part new e e' → Swap dead part new (.binary n op l e) (.binary n op l e')
  | callee (n : Node) (args : List Expr) {e e' : Expr} : (∀ m name, e ≠ .symbol m name) →
      Swap dead part new e e' → Swap dead part new (.call n e args) (.call n e' args)
  | argument (n : Node) (c : Expr) {before after : List Expr} {e e' : Expr} :
      Swap dead part new e e' →
      Swap dead part new (.call n c (before ++ e :: after)) (.call n c (before ++ e' :: after))
  | cast (n : Node) (t : TypeRef) {e e' : Expr} :
      Swap dead part new e e' → Swap dead part new (.cast n e t) (.cast n e' t)
  | operand (n : Node) (op : UnaryOp) {e e' : Expr} :
      Swap dead part new e e' → Swap dead part new (.unary n op e) (.unary n op e')
  | condition (n : Node) (th : Expr) (el : Option Expr) {e e' : Expr} :
      Swap dead part new e e' → Swap dead part new (.cond n e th el) (.cond n e' th el)
  | thenBranch (n : Node) (c : Expr) (el : Option Expr) {e e' : Expr} :
      Swap dead part new e e' → Swap dead part new (.cond n c e el) (.cond n c e' el)
  | elseBranch (n : Node) (c th : Expr) {e e' : Expr} :
      Swap dead part new e e' → Swap dead part new (.cond n c th (some e)) (.cond n c th (some e'))

/-! ### Parts -/

section

variable {dead : Expr → Bool} {part : Expr}

/-- The name that is called is not live. -/
theorem cases_of_mem_live_call {n : Node} {c : Expr} {args : List Expr}
    (h : part ∈ live dead (.call n c args)) :
    (part ∈ c.live dead ∧ ∀ m name, c ≠ .symbol m name) ∨ part ∈ liveAll dead args ∨
      part = .call n c args := by
  cases c with
  | symbol m s =>
    rw [live, List.mem_append, List.mem_singleton] at h
    exact .inr h
  | _ =>
    rw [live, List.mem_append, List.mem_append, List.mem_singleton] at h
    · rcases h with (h | h) | h
      · exact .inl ⟨h, by simp⟩
      · exact .inr (.inl h)
      · exact .inr (.inr h)
    · simp

mutual

/-- What is live is a part. -/
theorem mem_parts_of_mem_live : ∀ (e : Expr), part ∈ e.live dead → part ∈ e.parts
  | .block n l, h => by
    rw [live, List.mem_append] at h
    rw [parts, List.mem_append]
    exact h.imp_left (mem_partsAll_of_mem_liveBlock l)
  | .ret n v, h => by
    rw [live, List.mem_append] at h
    rw [parts, List.mem_append]
    exact h.imp_left (mem_partsOptional_of_mem_liveOptional v)
  | .binary n op l r, h => by
    rw [live, List.mem_append, List.mem_append] at h
    rw [parts, List.mem_append, List.mem_append]
    exact h.imp_left (Or.imp (mem_parts_of_mem_live l) (mem_parts_of_mem_live r))
  | .call n c args, h => by
    rw [parts, List.mem_append, List.mem_append, List.mem_singleton]
    rcases cases_of_mem_live_call h with ⟨h, -⟩ | h | h
    · exact .inl (.inl (mem_parts_of_mem_live c h))
    · exact .inl (.inr (mem_partsAll_of_mem_liveAll args h))
    · exact .inr h
  | .cast n e t, h => by
    rw [live, List.mem_append] at h
    rw [parts, List.mem_append]
    exact h.imp_left (mem_parts_of_mem_live e)
  | .unary n op e, h => by
    rw [live, List.mem_append] at h
    rw [parts, List.mem_append]
    exact h.imp_left (mem_parts_of_mem_live e)
  | .cond n c t e, h => by
    rw [live, List.mem_append, List.mem_append, List.mem_append] at h
    rw [parts, List.mem_append, List.mem_append, List.mem_append]
    exact h.imp_left (Or.imp (Or.imp (mem_parts_of_mem_live c)
      (mem_partsOptional_of_mem_liveOptional e)) (mem_parts_of_mem_live t))
  | .number n t, h => h
  | .string n t, h => h
  | .unreachable n, h => h
  | .void n, h => h
  | .symbol n s, h => h

theorem mem_partsAll_of_mem_liveBlock : ∀ (l : List Expr), part ∈ liveBlock dead l →
    part ∈ partsAll l
  | [], h => h
  | e :: rest, h => by
    rw [liveBlock, List.mem_append] at h
    rw [partsAll, List.mem_append]
    rcases h with h | h
    · exact .inl (mem_parts_of_mem_live e h)
    · split at h
      · cases h
      · exact .inr (mem_partsAll_of_mem_liveBlock rest h)

theorem mem_partsAll_of_mem_liveAll : ∀ (l : List Expr), part ∈ liveAll dead l → part ∈ partsAll l
  | [], h => h
  | e :: rest, h => by
    rw [liveAll, List.mem_append] at h
    rw [partsAll, List.mem_append]
    exact h.imp (mem_parts_of_mem_live e) (mem_partsAll_of_mem_liveAll rest)

theorem mem_partsOptional_of_mem_liveOptional : ∀ (e : Option Expr),
    part ∈ liveOptional dead e → part ∈ partsOptional e
  | none, h => h
  | some e, h => mem_parts_of_mem_live e h

end

end

/-! ### Replacing -/

section

variable {i : NodeId} {new : Expr}

theorem replace_self (e new : Expr) : replace e.id new e = new := by
  cases e <;> rw [replace, if_pos rfl]

theorem id_ne_of_not_mem {e : Expr} (h : i ∉ e.parts.map Expr.id) : e.id ≠ i := by
  rintro rfl
  exact h (List.mem_map_of_mem e.mem_parts_self)

mutual

/-- Replacing what is not there changes nothing. -/
theorem replace_of_not_mem : ∀ (e : Expr), i ∉ e.parts.map Expr.id → replace i new e = e
  | .block n l, h => by
    rw [replace, if_neg (id_ne_of_not_mem h)]
    simp only [parts, List.map_append, List.mem_append, not_or] at h
    rw [replaceAll_of_not_mem l h.1]
  | .ret n v, h => by
    rw [replace, if_neg (id_ne_of_not_mem h)]
    simp only [parts, List.map_append, List.mem_append, not_or] at h
    rw [replaceOptional_of_not_mem v h.1]
  | .binary n op l r, h => by
    rw [replace, if_neg (id_ne_of_not_mem h)]
    simp only [parts, List.map_append, List.mem_append, not_or] at h
    rw [replace_of_not_mem l h.1.1, replace_of_not_mem r h.1.2]
  | .call n c args, h => by
    rw [replace, if_neg (id_ne_of_not_mem h)]
    simp only [parts, List.map_append, List.mem_append, not_or] at h
    rw [replace_of_not_mem c h.1.1, replaceAll_of_not_mem args h.1.2]
  | .cast n e t, h => by
    rw [replace, if_neg (id_ne_of_not_mem h)]
    simp only [parts, List.map_append, List.mem_append, not_or] at h
    rw [replace_of_not_mem e h.1]
  | .unary n op e, h => by
    rw [replace, if_neg (id_ne_of_not_mem h)]
    simp only [parts, List.map_append, List.mem_append, not_or] at h
    rw [replace_of_not_mem e h.1]
  | .cond n c t e, h => by
    rw [replace, if_neg (id_ne_of_not_mem h)]
    simp only [parts, List.map_append, List.mem_append, not_or] at h
    rw [replace_of_not_mem c h.1.1.1, replaceOptional_of_not_mem e h.1.1.2,
      replace_of_not_mem t h.1.2]
  | .number n t, h => by rw [replace, if_neg (id_ne_of_not_mem h)]
  | .string n t, h => by rw [replace, if_neg (id_ne_of_not_mem h)]
  | .unreachable n, h => by rw [replace, if_neg (id_ne_of_not_mem h)]
  | .void n, h => by rw [replace, if_neg (id_ne_of_not_mem h)]
  | .symbol n s, h => by rw [replace, if_neg (id_ne_of_not_mem h)]

theorem replaceAll_of_not_mem : ∀ (l : List Expr), i ∉ (partsAll l).map Expr.id →
    replaceAll i new l = l
  | [], _ => rfl
  | e :: rest, h => by
    rw [partsAll, List.map_append, List.mem_append, not_or] at h
    rw [replaceAll, replace_of_not_mem e h.1, replaceAll_of_not_mem rest h.2]

theorem replaceOptional_of_not_mem : ∀ (e : Option Expr), i ∉ (partsOptional e).map Expr.id →
    replaceOptional i new e = e
  | none, _ => rfl
  | some e, h => by rw [replaceOptional, replace_of_not_mem e h]

end

theorem partsAll_append (l m : List Expr) : partsAll (l ++ m) = partsAll l ++ partsAll m := by
  induction l with
  | nil => rfl
  | cons e l ih => rw [List.cons_append, partsAll, partsAll, ih, List.append_assoc]

theorem replaceAll_append (l m : List Expr) :
    replaceAll i new (l ++ m) = replaceAll i new l ++ replaceAll i new m := by
  induction l with
  | nil => rfl
  | cons e l ih => rw [List.cons_append, replaceAll, replaceAll, ih, List.cons_append]

/-- Where ids are distinct, replacing a part of one expression leaves the others as they are. -/
theorem replaceAll_of_mem {before after : List Expr} {e : Expr}
    (hids : ((partsAll (before ++ e :: after)).map Expr.id).Nodup) (hi : i ∈ e.parts.map Expr.id) :
    replaceAll i new (before ++ e :: after) = before ++ replace i new e :: after := by
  rw [partsAll_append, partsAll, List.map_append, List.map_append] at hids
  have hbefore : i ∉ (partsAll before).map Expr.id := fun hb =>
    List.disjoint_of_nodup_append hids hb (List.mem_append_left _ hi)
  have hafter : i ∉ (partsAll after).map Expr.id := fun ha =>
    List.disjoint_of_nodup_append hids.of_append_right hi ha
  rw [replaceAll_append, replaceAll, replaceAll_of_not_mem before hbefore,
    replaceAll_of_not_mem after hafter]

end

/-! ### Live parts -/

section

variable {dead : Expr → Bool} {part new : Expr}

/-- A live part of a block is one of a statement that is reached. -/
theorem exists_of_mem_liveBlock {l : List Expr} (h : part ∈ liveBlock dead l) :
    ∃ before e after, l = before ++ e :: after ∧ (∀ x ∈ before, dead x = false) ∧
      part ∈ e.live dead := by
  induction l with
  | nil => cases h
  | cons e l ih =>
    rw [liveBlock, List.mem_append] at h
    rcases h with h | h
    · exact ⟨[], e, l, rfl, by simp, h⟩
    · split at h
      · cases h
      · next hdead =>
        obtain ⟨before, x, after, rfl, hbefore, hx⟩ := ih h
        refine ⟨e :: before, x, after, rfl, ?_, hx⟩
        rw [List.forall_mem_cons]
        exact ⟨Bool.eq_false_iff.mpr hdead, hbefore⟩

theorem exists_of_mem_liveAll {l : List Expr} (h : part ∈ liveAll dead l) :
    ∃ before e after, l = before ++ e :: after ∧ part ∈ e.live dead := by
  induction l with
  | nil => cases h
  | cons e l ih =>
    rw [liveAll, List.mem_append] at h
    rcases h with h | h
    · exact ⟨[], e, l, rfl, h⟩
    · obtain ⟨before, x, after, rfl, hx⟩ := ih h
      exact ⟨e :: before, x, after, rfl, hx⟩

/-- An expression shares its id with none of its own parts. -/
theorem id_ne_of_nodup {e : Expr} {ps : List Expr} (h : ((ps ++ [e]).map Expr.id).Nodup)
    (hp : part ∈ ps) : e.id ≠ part.id := by
  rw [List.map_append, List.map_singleton] at h
  intro heq
  exact List.disjoint_of_nodup_append h (List.mem_map_of_mem hp)
    (heq ▸ List.mem_singleton_self _)

section

variable {ps qs : List Expr} (h : ((ps ++ qs).map Expr.id).Nodup)
include h

theorem nodup_left : (ps.map Expr.id).Nodup := by
  rw [List.map_append] at h
  exact h.of_append_left

theorem nodup_right : (qs.map Expr.id).Nodup := by
  rw [List.map_append] at h
  exact h.of_append_right

theorem not_mem_left (hq : part ∈ qs) : part.id ∉ ps.map Expr.id := by
  rw [List.map_append] at h
  exact fun hp => List.disjoint_of_nodup_append h hp (List.mem_map_of_mem hq)

theorem not_mem_right (hp : part ∈ ps) : part.id ∉ qs.map Expr.id := by
  rw [List.map_append] at h
  exact fun hq => List.disjoint_of_nodup_append h (List.mem_map_of_mem hp) hq

end

theorem nodup_of_mem_partsAll {before after : List Expr} {e : Expr}
    (h : ((partsAll (before ++ e :: after)).map Expr.id).Nodup) : (e.parts.map Expr.id).Nodup := by
  rw [partsAll_append, partsAll] at h
  exact nodup_left (nodup_right h)

theorem mem_partsAll {before after : List Expr} {e : Expr} (h : part ∈ e.parts) :
    part ∈ partsAll (before ++ e :: after) := by
  rw [partsAll_append, partsAll]
  exact List.mem_append_right _ (List.mem_append_left _ h)

theorem swap_self (e : Expr) : Swap dead e new e (replace e.id new e) := by
  rw [replace_self]
  exact .here

mutual

/-- Where ids are distinct, replacing a live part by its id replaces it alone. -/
theorem swap_replace : ∀ (e : Expr), part ∈ e.live dead → (e.parts.map Expr.id).Nodup →
    Swap dead part new e (replace part.id new e)
  | .block n l, h, hids => by
    rw [live, List.mem_append, List.mem_singleton] at h
    rcases h with h | rfl
    · obtain ⟨before, e, after, hl, hbefore, hlive⟩ := exists_of_mem_liveBlock h
      have hswap := swap_replaceAll l e (by rw [hl]; simp) hlive
      subst hl
      have hmem := mem_parts_of_mem_live e hlive
      have hne := id_ne_of_nodup hids (mem_partsAll hmem)
      have hall := nodup_left hids
      rw [replace, if_neg hne, replaceAll_of_mem hall (List.mem_map_of_mem hmem)]
      exact .statement n hbefore (hswap (nodup_of_mem_partsAll hall))
    · exact swap_self _
  | .ret n v, h, hids => by
    rw [live, List.mem_append, List.mem_singleton] at h
    rcases h with h | rfl
    · have hswap := swap_replaceOptional v
      cases v with
      | none => cases h
      | some e =>
        have hmem := mem_parts_of_mem_live e h
        rw [replace, if_neg (id_ne_of_nodup hids hmem)]
        exact .ret n (hswap e rfl h (nodup_left hids))
    · exact swap_self _
  | .binary n op l r, h, hids => by
    rw [live, List.mem_append, List.mem_append, List.mem_singleton] at h
    have hsubs := nodup_left hids
    rcases h with (h | h) | rfl
    · have hmem := mem_parts_of_mem_live l h
      rw [replace, if_neg (id_ne_of_nodup hids (List.mem_append_left _ hmem)),
        replace_of_not_mem r (not_mem_right hsubs hmem)]
      exact .left n op r (swap_replace l h (nodup_left hsubs))
    · have hmem := mem_parts_of_mem_live r h
      rw [replace, if_neg (id_ne_of_nodup hids (List.mem_append_right _ hmem)),
        replace_of_not_mem l (not_mem_left hsubs hmem)]
      exact .right n op l (swap_replace r h (nodup_right hsubs))
    · exact swap_self _
  | .call n c args, h, hids => by
    have hsubs := nodup_left hids
    rcases cases_of_mem_live_call h with ⟨h, hc⟩ | h | rfl
    · have hmem := mem_parts_of_mem_live c h
      rw [replace, if_neg (id_ne_of_nodup hids (List.mem_append_left _ hmem)),
        replaceAll_of_not_mem args (not_mem_right hsubs hmem)]
      exact .callee n args hc (swap_replace c h (nodup_left hsubs))
    · obtain ⟨before, e, after, hargs, hlive⟩ := exists_of_mem_liveAll h
      have hswap := swap_replaceAll args e (by rw [hargs]; simp) hlive
      subst hargs
      have hmem := mem_parts_of_mem_live e hlive
      have hmemAll : part ∈ partsAll (before ++ e :: after) := mem_partsAll hmem
      have hall := nodup_right hsubs
      rw [replace, if_neg (id_ne_of_nodup hids (List.mem_append_right _ hmemAll)),
        replace_of_not_mem c (not_mem_left hsubs hmemAll),
        replaceAll_of_mem hall (List.mem_map_of_mem hmem)]
      exact .argument n c (hswap (nodup_of_mem_partsAll hall))
    · exact swap_self _
  | .cast n e t, h, hids => by
    rw [live, List.mem_append, List.mem_singleton] at h
    rcases h with h | rfl
    · have hmem := mem_parts_of_mem_live e h
      rw [replace, if_neg (id_ne_of_nodup hids hmem)]
      exact .cast n t (swap_replace e h (nodup_left hids))
    · exact swap_self _
  | .unary n op e, h, hids => by
    rw [live, List.mem_append, List.mem_singleton] at h
    rcases h with h | rfl
    · have hmem := mem_parts_of_mem_live e h
      rw [replace, if_neg (id_ne_of_nodup hids hmem)]
      exact .operand n op (swap_replace e h (nodup_left hids))
    · exact swap_self _
  | .cond n c th el, h, hids => by
    have hsubs := nodup_left hids
    have hfirst := nodup_left hsubs
    rw [live, List.mem_append, List.mem_append, List.mem_append, List.mem_singleton] at h
    rcases h with ((h | h) | h) | rfl
    · have hmem := mem_parts_of_mem_live c h
      have hmem' := List.mem_append_left (partsOptional el) hmem
      rw [replace, if_neg (id_ne_of_nodup hids (List.mem_append_left _ hmem')),
        replaceOptional_of_not_mem el (not_mem_right hfirst hmem),
        replace_of_not_mem th (not_mem_right hsubs hmem')]
      exact .condition n th el (swap_replace c h (nodup_left hfirst))
    · have hswap := swap_replaceOptional el
      cases el with
      | none => cases h
      | some e =>
        have hmem := mem_parts_of_mem_live e h
        have hmem' := List.mem_append_right c.parts hmem
        rw [replace, if_neg (id_ne_of_nodup hids (List.mem_append_left _ hmem')),
          replace_of_not_mem c (not_mem_left hfirst hmem),
          replace_of_not_mem th (not_mem_right hsubs hmem')]
        exact .elseBranch n c th (hswap e rfl h (nodup_right hfirst))
    · have hmem := mem_parts_of_mem_live th h
      have hleft := not_mem_left hsubs hmem
      rw [List.map_append, List.mem_append, not_or] at hleft
      rw [replace, if_neg (id_ne_of_nodup hids (List.mem_append_right _ hmem)),
        replace_of_not_mem c hleft.1, replaceOptional_of_not_mem el hleft.2]
      exact .thenBranch n c el (swap_replace th h (nodup_right hsubs))
    · exact swap_self _
  | .number n t, h, _ => by
    obtain rfl := List.mem_singleton.mp h
    exact swap_self _
  | .string n t, h, _ => by
    obtain rfl := List.mem_singleton.mp h
    exact swap_self _
  | .unreachable n, h, _ => by
    obtain rfl := List.mem_singleton.mp h
    exact swap_self _
  | .void n, h, _ => by
    obtain rfl := List.mem_singleton.mp h
    exact swap_self _
  | .symbol n s, h, _ => by
    obtain rfl := List.mem_singleton.mp h
    exact swap_self _

theorem swap_replaceAll : ∀ (l : List Expr), ∀ e ∈ l, part ∈ e.live dead →
    (e.parts.map Expr.id).Nodup → Swap dead part new e (replace part.id new e)
  | [], _, he, _, _ => by cases he
  | x :: rest, e, he, h, hids => by
    rcases List.mem_cons.mp he with heq | he
    · rw [heq] at h hids ⊢
      exact swap_replace x h hids
    · exact swap_replaceAll rest e he h hids

theorem swap_replaceOptional : ∀ (v : Option Expr), ∀ e ∈ v, part ∈ e.live dead →
    (e.parts.map Expr.id).Nodup → Swap dead part new e (replace part.id new e)
  | none, _, he, _, _ => by cases he
  | some x, e, he, h, hids => by
    obtain rfl := Option.some.inj he
    exact swap_replace x h hids

end

end

end Expr

end Sema
