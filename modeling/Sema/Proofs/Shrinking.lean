import Sema.Proofs.Keyed
import Sema.Proofs.Restoring

/-!
What is decoded is, once encoded, no deeper than what was read, although the encoding writes the
defaults that the text may leave out. A list of directives that is left out is as deep as the
position beside it, which cannot be left out.
-/

namespace Sema

open Json (Reading)

namespace Json

/-- Whether what a reader gives is encoded no deeper than what it reads. -/
def Shrinks {α : Type} (value? : Reading → Option α) (encode : α → Json) : Prop :=
  ∀ (r : Reading) (x : α), value? r = some x → (encode x).depth ≤ r.depth

section

variable {α : Type} {names : List String} {name : String} {value? : Reading → Option α}
  {encode : α → Json} {r : Reading} {f : Reading.Fields} {n : Nat}

/-- Fields lie below their record. -/
theorem depth_of_fields? (h : r.fields? names = some f) :
    ∃ n, r.depth = n + 1 ∧ ∀ m ∈ f.given, m.2.depth ≤ n := by
  cases r with
  | object members stop =>
    rw [Reading.fields?] at h
    split at h
    · obtain rfl := Option.some.inj h
      refine ⟨Reading.depthMembers members, rfl, fun m hm => ?_⟩
      obtain ⟨⟨key, v⟩, hmem, heq⟩ := List.mem_filterMap.mp hm
      obtain ⟨k, -, hk⟩ := Option.bind_eq_some_iff.mp heq
      split at hk
      · obtain rfl := Option.some.inj hk
        exact Reading.depthMembers_le.mp (Nat.le_refl _) (key, v) hmem
      · cases hk
    · cases h
  | array items stop =>
    rw [Reading.fields?] at h
    split at h
    · obtain rfl := Option.some.inj h
      exact ⟨Reading.depthAll items, rfl, fun m hm =>
        Reading.depthAll_le.mp (Nat.le_refl _) m.2 (List.of_mem_zip hm).2⟩
    · cases h
  | _ => cases h

variable (h : Shrinks value? encode) (hf : ∀ m ∈ f.given, m.2.depth ≤ n)
include h hf

theorem Shrinks.required {x : α} (hx : f.required? name value? = some x) :
    (encode x).depth ≤ n := by
  obtain ⟨r, hr, hx⟩ := Option.bind_eq_some_iff.mp hx
  exact Nat.le_trans (h _ _ hx) (hf _ (mem_of_lookup hr))

theorem Shrinks.defaulted {x default : α} (hdefault : (encode default).depth ≤ n)
    (hx : f.defaulted? name value? default = some x) : (encode x).depth ≤ n := by
  rw [Reading.Fields.defaulted?] at hx
  split at hx
  · exact Option.some.inj hx ▸ hdefault
  · next hr => exact Nat.le_trans (h _ _ hx) (hf _ (mem_of_lookup hr))

theorem Shrinks.nullable {x : Option α} (hx : f.nullable? name value? = some x) :
    (ofOption encode x).depth ≤ n := by
  have hnone : (ofOption encode none).depth ≤ n := Nat.zero_le n
  rw [Reading.Fields.nullable?] at hx
  split at hx
  · split at hx
    · cases hx
    · exact Option.some.inj hx ▸ hnone
  · exact Option.some.inj hx ▸ hnone
  · next hr =>
    obtain ⟨y, hy, rfl⟩ := Option.map_eq_some_iff.mp hx
    exact Nat.le_trans (h _ _ hy) (hf _ (mem_of_lookup hr))

omit hf

theorem Shrinks.list : Shrinks (Reading.list? value?) fun l => array (l.map encode) := by
  intro r l hl
  cases r with
  | array items stop =>
    rw [Reading.list?, mapM_eq_some_iff] at hl
    refine depth_array_le.mpr fun v hv => ?_
    obtain ⟨x, hx, rfl⟩ := List.mem_map.mp hv
    have hmem : some x ∈ items.map value? := hl ▸ List.mem_map_of_mem hx
    obtain ⟨item, hitem, hread⟩ := List.mem_map.mp hmem
    exact Nat.le_trans (h _ _ hread) (Reading.depthAll_le.mp (Nat.le_refl _) item hitem)
  | _ => cases hl

end

/-- What is left beside the tag is no deeper. -/
theorem depth_of_tagged? {tags : List String} {tag : String} {r kind : Reading}
    (h : r.tagged? tags = some (tag, kind)) : kind.depth ≤ r.depth := by
  cases r with
  | object members stop =>
    rw [Reading.tagged?] at h
    split at h
    · obtain ⟨_, -, heq⟩ := Option.bind_eq_some_iff.mp h
      obtain ⟨-, rfl⟩ := Prod.mk.inj (Option.some.inj heq)
      refine Nat.succ_le_succ (Reading.depthMembers_le.mpr fun m hm => ?_)
      exact Reading.depthMembers_le.mp (Nat.le_refl _) m (List.mem_of_mem_filter hm)
    · cases h
  | array items stop =>
    cases items with
    | nil => cases h
    | cons t items =>
      obtain ⟨_, -, heq⟩ := Option.bind_eq_some_iff.mp h
      obtain ⟨-, rfl⟩ := Prod.mk.inj (Option.some.inj heq)
      exact Nat.succ_le_succ (Nat.le_max_right ..)
  | _ => cases h

theorem depth_of_kind {tags : List String} {f : Reading.Fields} {n : Nat} {tag : String}
    {kind : Reading} (hf : ∀ m ∈ f.given, m.2.depth ≤ n)
    (h : f.required? "kind" (Reading.tagged? tags) = some (tag, kind)) : kind.depth ≤ n := by
  obtain ⟨r, hr, htag⟩ := Option.bind_eq_some_iff.mp h
  exact Nat.le_trans (depth_of_tagged? htag) (hf _ (mem_of_lookup hr))

end Json

open Json (depth_of_fields? Shrinks)

theorem Position.shrinks : Shrinks Position.ofReading? Position.toJson := by
  intro r p h
  simp only [ofReading?, Option.bind_eq_bind, Option.bind_eq_some_iff, Option.pure_def,
    Option.some.injEq] at h
  obtain ⟨f, hf, -⟩ := h
  obtain ⟨n, hn, -⟩ := depth_of_fields? hf
  simp [toJson, Json.depthMembers, hn]

/-- The fields of a node lie at least one level above the ground, as its position does. -/
theorem Node.depth_of_fields? {names : List String} {r : Reading} {f : Reading.Fields} {node : Node}
    (hf : r.fields? names = some f) (hnode : Node.ofFields? f = some node) :
    ∃ n, r.depth = n + 2 ∧ ∀ m ∈ f.given, m.2.depth ≤ n + 1 := by
  simp only [ofFields?, Option.bind_eq_bind, Option.bind_eq_some_iff, Option.pure_def,
    Option.some.injEq] at hnode
  obtain ⟨id, -, pos, hpos, -⟩ := hnode
  obtain ⟨n, hn, hgiven⟩ := Json.depth_of_fields? hf
  have hle : 1 ≤ n := Nat.le_trans (Nat.le_add_left ..) (Position.shrinks.required hgiven hpos)
  obtain ⟨n, rfl⟩ := Nat.exists_eq_add_of_le' hle
  exact ⟨n, hn, hgiven⟩

theorem Directive.shrinks : Shrinks Directive.ofReading? Directive.toJson := by
  intro r d h
  simp only [ofReading?, Option.bind_eq_bind, Option.bind_eq_some_iff, Option.pure_def,
    Option.some.injEq] at h
  obtain ⟨f, hf, node, hnode, name, -, param, -, rfl⟩ := h
  obtain ⟨n, hn, -⟩ := Node.depth_of_fields? hf hnode
  simp [toJson, Json.depthMembers, hn]

theorem depth_of_directives? {f : Reading.Fields} {ds : List Directive} {n : Nat}
    (hf : ∀ m ∈ f.given, m.2.depth ≤ n + 1) (h : directives? f = some ds) :
    (directivesToJson ds).depth ≤ n + 1 := by
  have hnone : (directivesToJson []).depth ≤ n + 1 := Nat.le_add_left ..
  exact Directive.shrinks.list.defaulted hf hnone h

theorem TypeRef.shrinks : ∀ k, Shrinks (TypeRef.ofReading? k) TypeRef.toJson
  | 0, _, _, h => by cases h
  | k + 1, r, t, h => by
    simp only [ofReading?, Option.bind_eq_bind, Option.bind_eq_some_iff, Prod.exists] at h
    obtain ⟨f, hf, node, hnode, tag, kind, hkind, h⟩ := h
    obtain ⟨n, hn, hgiven⟩ := depth_of_fields? hf
    have hle := Json.depth_of_kind hgiven hkind
    split at h
    · simp only [Option.bind_eq_some_iff, Option.pure_def, Option.some.injEq] at h
      obtain ⟨g, hg, name, -, rfl⟩ := h
      obtain ⟨m, hm, -⟩ := depth_of_fields? hg
      simp [toJson, Json.depthMembers, hn]
      omega
    · simp only [Option.bind_eq_some_iff, Option.pure_def, Option.some.injEq] at h
      obtain ⟨g, hg, isConst, -, child, hchild, rfl⟩ := h
      obtain ⟨m, hm, hinner⟩ := depth_of_fields? hg
      have := (TypeRef.shrinks k).required hinner hchild
      simp [toJson, Json.depthMembers, hn]
      omega

/-- The parts of an expression are one level below its kind. -/
theorem Expr.depth_of_ofKind? {k : Nat} {part? : Reading → Option Expr} {node : Node} {tag : String}
    {kind : Reading} {e : Expr} (hpart : Shrinks part? Expr.toJson)
    (h : ofKind? k part? node tag kind = some e) : e.toJson.depth ≤ kind.depth + 1 := by
  have htype := TypeRef.shrinks k
  rw [ofKind?.eq_def] at h
  -- one case for each tag; a field that is a tree of its own counts, texts and operators do not
  split at h <;> simp only [Option.bind_eq_bind, Option.bind_eq_some_iff, Option.pure_def,
    Option.some.injEq, reduceCtorEq] at h
  · obtain ⟨f, hf, l, hl, rfl⟩ := h
    obtain ⟨m, hm, hgiven⟩ := depth_of_fields? hf
    have := hpart.list.required hgiven hl
    simp [toJson, Json.depthMembers, hm, exprsToJson_eq_map]
    omega
  · obtain ⟨f, hf, v, hv, rfl⟩ := h
    obtain ⟨m, hm, hgiven⟩ := depth_of_fields? hf
    have := hpart.nullable hgiven hv
    simp [toJson, Json.depthMembers, hm, optionalExprToJson_eq]
    omega
  · obtain ⟨f, hf, op, -, l, hl, r, hr, rfl⟩ := h
    obtain ⟨m, hm, hgiven⟩ := depth_of_fields? hf
    have := hpart.required hgiven hl
    have := hpart.required hgiven hr
    simp [toJson, Json.depthMembers, hm]
    omega
  · obtain ⟨f, hf, c, hc, args, hargs, rfl⟩ := h
    obtain ⟨m, hm, hgiven⟩ := depth_of_fields? hf
    have := hpart.required hgiven hc
    have := hpart.list.required hgiven hargs
    simp [toJson, Json.depthMembers, hm, exprsToJson_eq_map]
    omega
  · obtain ⟨f, hf, text, -, rfl⟩ := h
    obtain ⟨m, hm, -⟩ := depth_of_fields? hf
    simp [toJson, Json.depthMembers, hm]
  · obtain ⟨f, hf, text, -, rfl⟩ := h
    obtain ⟨m, hm, -⟩ := depth_of_fields? hf
    simp [toJson, Json.depthMembers, hm]
  · obtain ⟨f, hf, rfl⟩ := h
    obtain ⟨m, hm, -⟩ := depth_of_fields? hf
    simp [toJson, Json.depthMembers, hm]
  · obtain ⟨f, hf, rfl⟩ := h
    obtain ⟨m, hm, -⟩ := depth_of_fields? hf
    simp [toJson, Json.depthMembers, hm]
  · obtain ⟨f, hf, name, -, rfl⟩ := h
    obtain ⟨m, hm, -⟩ := depth_of_fields? hf
    simp [toJson, Json.depthMembers, hm]
  · obtain ⟨f, hf, e, he, t, ht, rfl⟩ := h
    obtain ⟨m, hm, hgiven⟩ := depth_of_fields? hf
    have := hpart.required hgiven he
    have := htype.required hgiven ht
    simp [toJson, Json.depthMembers, hm]
    omega
  · obtain ⟨f, hf, op, -, e, he, rfl⟩ := h
    obtain ⟨m, hm, hgiven⟩ := depth_of_fields? hf
    have := hpart.required hgiven he
    simp [toJson, Json.depthMembers, hm]
    omega
  · obtain ⟨f, hf, c, hc, th, hth, el, hel, rfl⟩ := h
    obtain ⟨m, hm, hgiven⟩ := depth_of_fields? hf
    have := hpart.required hgiven hc
    have := hpart.required hgiven hth
    have := hpart.nullable hgiven hel
    simp [toJson, Json.depthMembers, hm, optionalExprToJson_eq]
    omega

theorem Expr.shrinks : ∀ k, Shrinks (Expr.ofReading? k) Expr.toJson
  | 0, _, _, h => by cases h
  | k + 1, r, e, h => by
    simp only [ofReading?, Option.bind_eq_bind, Option.bind_eq_some_iff, Prod.exists] at h
    obtain ⟨f, hf, node, -, tag, kind, hkind, h⟩ := h
    obtain ⟨n, hn, hgiven⟩ := depth_of_fields? hf
    have := Json.depth_of_kind hgiven hkind
    have := depth_of_ofKind? (Expr.shrinks k) h
    omega

theorem Param.shrinks (k : Nat) : Shrinks (Param.ofReading? k) Param.toJson := by
  intro r p h
  simp only [ofReading?, Option.bind_eq_bind, Option.bind_eq_some_iff, Option.pure_def,
    Option.some.injEq] at h
  obtain ⟨f, hf, node, hnode, name, -, t, ht, rfl⟩ := h
  obtain ⟨n, hn, hgiven⟩ := Node.depth_of_fields? hf hnode
  have := (TypeRef.shrinks k).required hgiven ht
  simp [toJson, Json.depthMembers, hn]
  omega

theorem Prototype.shrinks (k : Nat) : Shrinks (Prototype.ofReading? k) Prototype.toJson := by
  intro r p h
  simp only [ofReading?, Option.bind_eq_bind, Option.bind_eq_some_iff, Option.pure_def,
    Option.some.injEq] at h
  obtain ⟨f, hf, node, hnode, name, -, v, -, ps, hps, t, ht, ds, hds, rfl⟩ := h
  obtain ⟨n, hn, hgiven⟩ := Node.depth_of_fields? hf hnode
  have := (Param.shrinks k).list.required hgiven hps
  have := (TypeRef.shrinks k).required hgiven ht
  have := depth_of_directives? hgiven hds
  simp [toJson, Json.depthMembers, hn]
  omega

theorem ExternalFn.shrinks (k : Nat) : Shrinks (ExternalFn.ofReading? k) ExternalFn.toJson := by
  intro r g h
  simp only [ofReading?, Option.bind_eq_bind, Option.bind_eq_some_iff, Option.pure_def,
    Option.some.injEq] at h
  obtain ⟨f, hf, node, hnode, p, hp, rfl⟩ := h
  obtain ⟨n, hn, hgiven⟩ := Node.depth_of_fields? hf hnode
  have := (Prototype.shrinks k).required hgiven hp
  simp [toJson, Json.depthMembers, hn]
  omega

/-- A declaration is no deeper than what stands beside its tag. -/
theorem Decl.depth_of_ofReading? {k : Nat} {r : Reading} {d : Decl}
    (h : Decl.ofReading? k r = some d) :
    ∃ tag kind, r.tagged? tags = some (tag, kind) ∧ d.toJson.depth ≤ kind.depth := by
  simp only [ofReading?, Option.bind_eq_bind, Option.bind_eq_some_iff, Prod.exists] at h
  obtain ⟨tag, kind, htag, h⟩ := h
  refine ⟨tag, kind, htag, ?_⟩
  split at h
  · obtain ⟨d, hd, rfl⟩ := Option.map_eq_some_iff.mp h
    simp only [FnDef.ofReading?, Option.bind_eq_bind, Option.bind_eq_some_iff, Option.pure_def,
      Option.some.injEq] at hd
    obtain ⟨f, hf, node, hnode, p, hp, body, hbody, rfl⟩ := hd
    obtain ⟨n, hn, hgiven⟩ := Node.depth_of_fields? hf hnode
    have := (Prototype.shrinks k).required hgiven hp
    have := (Expr.shrinks k).required hgiven hbody
    simp [toJson, Json.depthMembers, hn]
    omega
  · obtain ⟨b, hb, rfl⟩ := Option.map_eq_some_iff.mp h
    simp only [ExternalBlock.ofReading?, Option.bind_eq_bind, Option.bind_eq_some_iff,
      Option.pure_def, Option.some.injEq] at hb
    obtain ⟨f, hf, node, hnode, ds, hds, gs, hgs, rfl⟩ := hb
    obtain ⟨n, hn, hgiven⟩ := Node.depth_of_fields? hf hnode
    have := depth_of_directives? hgiven hds
    have := (ExternalFn.shrinks k).list.required hgiven hgs
    simp [toJson, Json.depthMembers, hn]
    omega
  · obtain ⟨e, he, rfl⟩ := Option.map_eq_some_iff.mp h
    simp only [RootExport.ofReading?, Option.bind_eq_bind, Option.bind_eq_some_iff, Option.pure_def,
      Option.some.injEq] at he
    obtain ⟨f, hf, node, hnode, kind, -, name, -, ds, hds, rfl⟩ := he
    obtain ⟨n, hn, hgiven⟩ := Node.depth_of_fields? hf hnode
    have := depth_of_directives? hgiven hds
    simp [toJson, Json.depthMembers, hn]
    omega
  · obtain ⟨u, hu, rfl⟩ := Option.map_eq_some_iff.mp h
    simp only [UseDecl.ofReading?, Option.bind_eq_bind, Option.bind_eq_some_iff, Option.pure_def,
      Option.some.injEq] at hu
    obtain ⟨f, hf, node, hnode, path, -, ds, hds, rfl⟩ := hu
    obtain ⟨n, hn, hgiven⟩ := Node.depth_of_fields? hf hnode
    have := depth_of_directives? hgiven hds
    simp [toJson, Json.depthMembers, hn]
    omega
  · cases h

end Sema
