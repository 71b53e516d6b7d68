import Sema.Proofs.Keyed
import Sema.Proofs.Spelling

/-!
Records of which one member is changed. Every reader takes the fields of a record by name, so what
counts is that each field is given as before, up to its own spelling, or left out with its default.
A value of several kinds is such a record, with its tag as the first field.
-/

namespace Sema

open Json (Reading Members)
open Json.Reading (Fields knownMembers)

/-! ### Readers by form -/

/-- Reads what is left of a written type without its node. -/
def TypeRef.readKind? (depth : Nat) (node : Node) (r : Reading) : Option TypeRef := do
  let (tag, kind) ← r.tagged? tags
  if tag = "primitive" then
    let f ← kind.fields? ["name"]
    return .named node (← f.required? "name" Reading.text?)
  else
    let f ← kind.fields? ["is_const", "child"]
    let isConst ← f.required? "is_const" Reading.bool?
    return .pointer node (.ofConst isConst) (← f.required? "child" (TypeRef.ofReading? depth))

/-- Reads what is left of an expression without its node. -/
def Expr.readKind? (depth : Nat) (node : Node) (r : Reading) : Option Expr := do
  let (tag, kind) ← r.tagged? tags
  Expr.ofKind? depth (Expr.ofReading? depth) node tag kind

theorem Json.Reading.Fields.required?_bind {α β : Type} (f : Fields) (name : String)
    (value? : Reading → Option α) (g : α → Option β) :
    (f.required? name value?).bind g = f.required? name fun r => (value? r).bind g := by
  rw [required?, required?, Option.bind_assoc]

theorem TypeRef.ofReading?_succ (depth : Nat) (r : Reading) :
    TypeRef.ofReading? (depth + 1) r = (r.fields? ["id", "pos", "kind"]).bind fun f =>
      (Node.ofFields? f).bind fun node => f.required? "kind" (readKind? depth node) := by
  rw [ofReading?]
  refine Option.bind_congr fun f _ => Option.bind_congr fun node _ => ?_
  exact f.required?_bind "kind" _ _

theorem Expr.ofReading?_succ (depth : Nat) (r : Reading) :
    Expr.ofReading? (depth + 1) r = (r.fields? ["id", "pos", "kind"]).bind fun f =>
      (Node.ofFields? f).bind fun node => f.required? "kind" (readKind? depth node) := by
  rw [ofReading?]
  refine Option.bind_congr fun f _ => Option.bind_congr fun node _ => ?_
  exact f.required?_bind "kind" _ _

/-- The readers of values of a form. -/
inductive ReadBy : Form → {α : Type} → (Reading → Option α) → Prop where
  | single {α : Type} (value? : Reading → Option α) : ReadBy .single value?
  | list {F : Form} {α : Type} {value? : Reading → Option α} (item : ReadBy F value?) :
      ReadBy (.list F) (Reading.list? value?)
  | position : ReadBy .position Position.ofReading?
  | directive : ReadBy .directive Directive.ofReading?
  | typeRef (depth : Nat) : ReadBy .typeRef (TypeRef.ofReading? depth)
  | typeKind (depth : Nat) (node : Node) : ReadBy .typeKind (TypeRef.readKind? depth node)
  | param (depth : Nat) : ReadBy .param (Param.ofReading? depth)
  | prototype (depth : Nat) : ReadBy .prototype (Prototype.ofReading? depth)
  | expr (depth : Nat) : ReadBy .expr (Expr.ofReading? depth)
  | exprKind (depth : Nat) (node : Node) : ReadBy .exprKind (Expr.readKind? depth node)
  | externalFn (depth : Nat) : ReadBy .externalFn (ExternalFn.ofReading? depth)
  | decl (depth : Nat) : ReadBy .decl (Decl.ofReading? depth)
  | root (depth : Nat) : ReadBy .root (SourceFile.rootOfReading? depth)
  | sourceFile (depth : Nat) : ReadBy .sourceFile (SourceFile.ofReading? depth)
  | program (depth : Nat) : ReadBy .program (Program.ofReading? depth)

/-- Whether every reader of a form takes one value for another. Null is told from all else. -/
structure Kept (F : Form) (r r' : Reading) : Prop where
  reads : ∀ {α : Type} {value? : Reading → Option α}, ReadBy F value? →
    ∀ {x : α}, value? r = some x → value? r' = some x
  null : r' = .null ↔ r = .null

theorem Kept.refl (F : Form) (r : Reading) : Kept F r r := ⟨fun _ _ h => h, Iff.rfl⟩

/-! ### Fields by name -/

theorem Json.Reading.Fields.nullable?_of_ne_null {α : Type} {f : Fields} {name : String}
    {value? : Reading → Option α} {v : Reading} (hv : f.given.lookup name = some v)
    (hne : v ≠ .null) : f.nullable? name value? = (value? v).map some := by
  rw [nullable?, hv]
  cases v with
  | null => exact absurd rfl hne
  | _ => rfl

/-- How the fields of a respelled record relate to those before: every one is given as it was, up to
its own spelling, or left out with its default. -/
structure FieldsKept (fs : List Form.Field) (f f' : Fields) : Prop where
  listed : f'.listed = f.listed
  missing : ∀ g ∈ fs, f.given.lookup g.name = none → f'.given.lookup g.name = none
  given : ∀ g ∈ fs, ∀ v, f.given.lookup g.name = some v →
    (∃ v', f'.given.lookup g.name = some v' ∧ Kept g.form v v') ∨
      f'.given.lookup g.name = none ∧ g.Default v ∧ f.listed = false

theorem FieldsKept.of_lookup_eq {fs : List Form.Field} {f f' : Fields} (hl : f'.listed = f.listed)
    (h : ∀ g ∈ fs, f'.given.lookup g.name = f.given.lookup g.name) : FieldsKept fs f f' where
  listed := hl
  missing := fun g hg hv => (h g hg).trans hv
  given := fun g hg v hv => .inl ⟨v, (h g hg).trans hv, .refl _ _⟩

namespace FieldsKept

variable {fs : List Form.Field} {f f' : Fields} {F : Form} {name : String} {α : Type}
  {value? : Reading → Option α} (h : FieldsKept fs f f') (hread : ReadBy F value?)
include h hread

/-- A field that has to be given is given as before. -/
theorem required {x : α} (hmem : .required name F ∈ fs) (hx : f.required? name value? = some x) :
    f'.required? name value? = some x := by
  obtain ⟨v, hv, hx⟩ := Option.bind_eq_some_iff.mp hx
  rcases h.given _ hmem v hv with ⟨v', hv', hkept⟩ | ⟨-, hfalse, -⟩
  · exact Option.bind_eq_some_iff.mpr ⟨v', hv', hkept.reads hread hx⟩
  · exact hfalse.elim

/-- A field with a default is given as before, or left out with the default. -/
theorem defaulted {x default : α} {Default : Reading → Prop} (hmem : ⟨name, F, Default⟩ ∈ fs)
    (hdefault : ∀ v, Default v → value? v = some default)
    (hx : f.defaulted? name value? default = some x) :
    f'.defaulted? name value? default = some x := by
  rw [Fields.defaulted?] at hx ⊢
  cases hv : f.given.lookup name with
  | none =>
    rw [hv] at hx
    rw [h.missing _ hmem hv]
    exact hx
  | some v =>
    rw [hv] at hx
    rcases h.given _ hmem v hv with ⟨v', hv', hkept⟩ | ⟨hv', hd, -⟩
    · rw [hv']
      exact hkept.reads hread hx
    · rw [hv', ← hdefault v hd]
      exact hx

/-- A field that may be null is given as before, or left out as null. -/
theorem nullable {x : Option α} (hmem : ⟨name, F, (· = .null)⟩ ∈ fs)
    (hx : f.nullable? name value? = some x) : f'.nullable? name value? = some x := by
  cases hv : f.given.lookup name with
  | none =>
    rw [Fields.nullable?, hv] at hx
    rw [Fields.nullable?, h.missing _ hmem hv, h.listed]
    exact hx
  | some v =>
    by_cases hnull : v = .null
    · subst hnull
      rw [Fields.nullable?, hv] at hx
      rw [Fields.nullable?]
      rcases h.given _ hmem _ hv with ⟨v', hv', hkept⟩ | ⟨hv', -, hobject⟩
      · rw [hv', hkept.null.mpr rfl]
        exact hx
      · rw [hv', h.listed, hobject]
        exact hx
    · rcases h.given _ hmem v hv with ⟨v', hv', hkept⟩ | ⟨-, hdefault, -⟩
      · rw [Fields.nullable?_of_ne_null hv hnull] at hx
        rw [Fields.nullable?_of_ne_null hv' (mt hkept.null.mp hnull)]
        obtain ⟨y, hy, rfl⟩ := Option.map_eq_some_iff.mp hx
        rw [hkept.reads hread hy, Option.map_some]
      · exact absurd hdefault hnull

end FieldsKept

/-! ### Records that are changed in one place -/

/-- One change to a record with some fields, where `inner` tells which values of a field may take
each other's place and `free` which values may be added. -/
inductive Edits (fs : List Form.Field) (free : Reading → Prop)
    (inner : Form → Reading → Reading → Prop) : Reading → Reading → Prop where
  | permute {ms ms' : Members} {stop : Option Json.Halt} (perm : ms.Perm ms') :
      Edits fs free inner (.object ms stop) (.object ms' stop)
  | insert {ms : Members} {stop : Option Json.Halt} {key : String} {v : Reading}
      (unknown : key ∉ fs.map (·.name)) (any : free v) :
      Edits fs free inner (.object ms stop) (.object ((some key, v) :: ms) stop)
  | drop {before after : Members} {stop : Option Json.Halt} {f : Form.Field} {v : Reading}
      (mem : f ∈ fs) (default : f.Default v) :
      Edits fs free inner (.object (before ++ (some f.name, v) :: after) stop)
        (.object (before ++ after) stop)
  | member {before after : Members} {stop : Option Json.Halt} {f : Form.Field} {v v' : Reading}
      (mem : f ∈ fs) (same : inner f.form v v') :
      Edits fs free inner (.object (before ++ (some f.name, v) :: after) stop)
        (.object (before ++ (some f.name, v') :: after) stop)
  | item {items : List Reading} {stop : Option Json.Halt} {i : Nat} {f : Form.Field}
      {v v' : Reading} (field : fs[i]? = some f) (given : items[i]? = some v)
      (same : inner f.form v v') :
      Edits fs free inner (.array items stop) (.array (items.set i v') stop)

section

variable {names : List String} {ms : Members} {k : String} {v : Reading}

theorem knownMembers_append (l m : Members) :
    knownMembers names (l ++ m) = knownMembers names l ++ knownMembers names m :=
  List.filterMap_append

theorem knownMembers_perm (names : List String) {l m : Members} (h : l.Perm m) :
    (knownMembers names l).Perm (knownMembers names m) :=
  h.filterMap _

theorem knownMembers_middle {before after : Members} (h : k ∈ names) :
    knownMembers names (before ++ (some k, v) :: after) =
      knownMembers names before ++ (k, v) :: knownMembers names after := by
  rw [knownMembers_append]
  simp [knownMembers, h]

theorem knownMembers_cons_of_not_mem (h : k ∉ names) :
    knownMembers names ((some k, v) :: ms) = knownMembers names ms := by
  simp [knownMembers, h]

end

section

variable {fs : List Form.Field} {r r' : Reading} {f : Fields} {ms ms' : Members}
  {stop : Option Json.Halt} (hfs : (fs.map (·.name)).Nodup)

theorem fields?_object_iff {names : List String} {ms : Members} {stop : Option Json.Halt} :
    (Reading.object ms stop).fields? names = some f ↔
      ((knownMembers names ms).map (·.1)).Nodup ∧ f = ⟨knownMembers names ms, false⟩ := by
  rw [Json.Reading.fields?]
  split
  · next h => simp [h, eq_comm]
  · next h => simp [h]

theorem fields?_array_iff {names : List String} {items : List Reading} {stop : Option Json.Halt} :
    (Reading.array items stop).fields? names = some f ↔
      items.length ≤ names.length ∧ f = ⟨names.zip items, true⟩ := by
  rw [Json.Reading.fields?]
  split
  · next h => simp [h, eq_comm]
  · next h => simp [h]

include hfs

theorem FieldsKept.drop {l m : List (String × Reading)} {g : Form.Field} {v : Reading}
    (mem : g ∈ fs) (default : g.Default v) (hnot : g.name ∉ (l ++ m).map (·.1)) :
    FieldsKept fs ⟨l ++ (g.name, v) :: m, false⟩ ⟨l ++ m, false⟩ := by
  refine ⟨rfl, fun g' _ hnone => ?_, fun g' hg' w hw => ?_⟩
  · rw [lookup_middle hnot] at hnone
    split at hnone
    · cases hnone
    · exact hnone
  · rw [lookup_middle hnot] at hw
    split at hw
    · next heq =>
      obtain rfl := List.inj_on_of_nodup_map hfs hg' mem heq
      obtain rfl := Option.some.inj hw
      exact .inr ⟨lookup_eq_none_iff_not_mem.mpr hnot, default, rfl⟩
    · exact .inl ⟨w, hw, .refl _ _⟩

theorem FieldsKept.member {l m : List (String × Reading)} {g : Form.Field} {v v' : Reading}
    {listed : Bool} (mem : g ∈ fs) (same : Kept g.form v v') (hnot : g.name ∉ (l ++ m).map (·.1)) :
    FieldsKept fs ⟨l ++ (g.name, v) :: m, listed⟩ ⟨l ++ (g.name, v') :: m, listed⟩ := by
  refine ⟨rfl, fun g' _ hnone => ?_, fun g' hg' w hw => ?_⟩
  · rw [lookup_middle hnot] at hnone ⊢
    split at hnone
    · cases hnone
    · next hne => rw [if_neg hne, hnone]
  · rw [lookup_middle hnot] at hw ⊢
    split at hw
    · next heq =>
      obtain rfl := List.inj_on_of_nodup_map hfs hg' mem heq
      obtain rfl := Option.some.inj hw
      exact .inl ⟨v', if_pos heq, same⟩
    · next hne => exact .inl ⟨w, by rw [if_neg hne, hw], .refl _ _⟩

theorem FieldsKept.item {items : List Reading} {i : Nat} {g : Form.Field} {v v' : Reading}
    (field : fs[i]? = some g) (given : items[i]? = some v) (same : Kept g.form v v') :
    FieldsKept fs ⟨(fs.map (·.name)).zip items, true⟩
      ⟨(fs.map (·.name)).zip (items.set i v'), true⟩ := by
  have hlookup : ∀ g' ∈ fs, ∃ j : Nat, fs[j]? = some g' ∧ ∀ l : List Reading,
      ((fs.map (·.name)).zip l).lookup g'.name = l[j]? := by
    intro g' hg'
    obtain ⟨j, hj⟩ := List.getElem?_of_mem hg'
    exact ⟨j, hj, fun l => lookup_zip hfs (by rw [List.getElem?_map, hj]; rfl)⟩
  refine ⟨rfl, fun g' hg' hnone => ?_, fun g' hg' w hw => ?_⟩
  · obtain ⟨j, -, hl⟩ := hlookup g' hg'
    rw [hl, List.getElem?_eq_none_iff] at hnone
    rwa [hl, List.getElem?_eq_none_iff, List.length_set]
  · obtain ⟨j, hj, hl⟩ := hlookup g' hg'
    rw [hl] at hw
    rw [hl, List.getElem?_set]
    by_cases hij : i = j
    · subst hij
      obtain rfl := Option.some.inj (field.symm.trans hj)
      obtain rfl := Option.some.inj (given.symm.trans hw)
      have hlt := (List.getElem?_eq_some_iff.mp given).1
      exact .inl ⟨v', by rw [if_pos rfl, if_pos hlt], same⟩
    · exact .inl ⟨w, by rw [if_neg hij, hw], .refl _ _⟩

/-- The fields of a record that is changed in one place are kept. -/
theorem Edits.fields_kept {free : Reading → Prop} (h : Edits fs free Kept r r')
    (hf : r.fields? (fs.map (·.name)) = some f) :
    ∃ f', r'.fields? (fs.map (·.name)) = some f' ∧ FieldsKept fs f f' := by
  cases h with
  | permute perm =>
    obtain ⟨hnodup, rfl⟩ := fields?_object_iff.mp hf
    have hknown := knownMembers_perm (fs.map (·.name)) perm
    exact ⟨_, fields?_object_iff.mpr ⟨(hknown.map (·.1)).nodup_iff.mp hnodup, rfl⟩,
      .of_lookup_eq rfl fun g _ => (lookup_perm hknown hnodup).symm⟩
  | insert unknown _ =>
    rw [fields?_object_iff, ← knownMembers_cons_of_not_mem unknown] at hf
    exact ⟨f, fields?_object_iff.mpr hf, .of_lookup_eq rfl fun _ _ => rfl⟩
  | @drop before after stop g v mem default =>
    rw [fields?_object_iff, knownMembers_middle (List.mem_map_of_mem mem)] at hf
    obtain ⟨hnodup, rfl⟩ := hf
    obtain ⟨hnot, hrest⟩ := nodup_middle_iff.mp hnodup
    refine ⟨_, fields?_object_iff.mpr ⟨?_, rfl⟩,
      knownMembers_append _ _ ▸ .drop hfs mem default hnot⟩
    rwa [knownMembers_append]
  | @member before after stop g v v' mem same =>
    have hmem : g.name ∈ fs.map (·.name) := List.mem_map_of_mem mem
    rw [fields?_object_iff, knownMembers_middle hmem] at hf
    obtain ⟨hnodup, rfl⟩ := hf
    have hnot := (nodup_middle_iff.mp hnodup).1
    refine ⟨_, fields?_object_iff.mpr ⟨?_, rfl⟩, ?_⟩
    · rw [knownMembers_middle hmem]
      exact nodup_middle_iff.mpr (nodup_middle_iff.mp hnodup)
    · rw [knownMembers_middle hmem]
      exact .member hfs mem same hnot
  | item field given same =>
    obtain ⟨hle, rfl⟩ := fields?_array_iff.mp hf
    exact ⟨_, fields?_array_iff.mpr ⟨by rwa [List.length_set], rfl⟩, .item hfs field given same⟩

end

/-! ### Values of several kinds -/

section

variable {tags names : List String} {ms : Members} {stop : Option Json.Halt} {r kind : Reading}
  {f g : Fields} {tag : String}

/-- The tag is known as a field. -/
theorem filter_type_knownMembers (names : List String) (ms : Members) :
    (knownMembers ("type" :: names) ms).filter (·.1 = "type") =
      (ms.filter (·.1 = some "type")).map fun m => ("type", m.2) := by
  rw [knownMembers, List.filter_filterMap, ← List.filterMap_eq_map, List.filterMap_filter]
  refine List.filterMap_congr fun m _ => ?_
  obtain ⟨_ | key, v⟩ := m
  · rfl
  · by_cases hk : key = "type"
    · simp [hk]
    · by_cases hmem : key ∈ names <;> simp [hk, hmem]

/-- The fields beside the tag are known without it. -/
theorem filter_ne_type_knownMembers (names : List String) (ms : Members) :
    (knownMembers ("type" :: names) ms).filter (·.1 ≠ "type") =
      knownMembers names (ms.filter (·.1 ≠ some "type")) := by
  rw [knownMembers, knownMembers, List.filter_filterMap, List.filterMap_filter]
  refine List.filterMap_congr fun m _ => ?_
  obtain ⟨_ | key, v⟩ := m
  · rfl
  · by_cases hk : key = "type"
    · simp [hk]
    · by_cases hmem : key ∈ names <;> simp [hk, hmem]

theorem tagged?_object_iff : (Reading.object ms stop).tagged? tags = some (tag, kind) ↔
    ∃ key t, ms.filter (·.1 = some "type") = [(key, t)] ∧ t.tag? tags = some tag ∧
      kind = .object (ms.filter (·.1 ≠ some "type")) stop := by
  rw [Json.Reading.tagged?]
  constructor
  · intro h
    split at h
    · next key t hfilter =>
      obtain ⟨tag', htag, heq⟩ := Option.bind_eq_some_iff.mp h
      obtain ⟨rfl, rfl⟩ := Prod.mk.inj (Option.some.inj heq)
      exact ⟨key, t, hfilter, htag, rfl⟩
    · cases h
  · rintro ⟨key, t, hfilter, htag, rfl⟩
    rw [hfilter]
    simp [htag]

theorem tagged?_array_iff {t : Reading} {items : List Reading} :
    (Reading.array (t :: items) stop).tagged? tags = some (tag, kind) ↔
      t.tag? tags = some tag ∧ kind = .array items stop := by
  rw [Json.Reading.tagged?]
  cases t.tag? tags <;> simp [eq_comm]

variable (htype : "type" ∉ names)
include htype

/-- A value of several kinds is a record with its tag as the first field. -/
theorem fields?_of_tagged? (htag : r.tagged? tags = some (tag, kind))
    (hf : kind.fields? names = some f) : ∃ g, r.fields? ("type" :: names) = some g ∧
      g.required? "type" (Reading.tag? tags) = some tag ∧ g.listed = f.listed ∧
      ∀ k ∈ names, g.given.lookup k = f.given.lookup k := by
  have hne : ∀ k ∈ names, k ≠ "type" := fun k hk heq => htype (heq ▸ hk)
  cases r with
  | object ms stop =>
    obtain ⟨key, t, hfilter, ht, rfl⟩ := tagged?_object_iff.mp htag
    obtain ⟨hnodup, rfl⟩ := fields?_object_iff.mp hf
    have htypes := filter_type_knownMembers names ms
    rw [hfilter] at htypes
    have hrest := filter_ne_type_knownMembers names ms
    have hkeys : ((knownMembers ("type" :: names) ms).map (·.1)).Nodup := by
      rw [nodup_keys_iff "type", htypes, hrest]
      exact ⟨List.nodup_singleton _, hnodup⟩
    refine ⟨_, fields?_object_iff.mpr ⟨hkeys, rfl⟩, ?_, rfl, fun k hk => ?_⟩
    · have hlookup := lookup_filter (· = "type") (knownMembers ("type" :: names) ms) "type"
      rw [htypes, if_pos (decide_eq_true rfl)] at hlookup
      exact Option.bind_eq_some_iff.mpr ⟨t, hlookup.symm, ht⟩
    · have hlookup := lookup_filter (· ≠ "type") (knownMembers ("type" :: names) ms) k
      rw [hrest, if_pos (decide_eq_true (hne k hk))] at hlookup
      exact hlookup.symm
  | array items stop =>
    cases items with
    | nil => cases htag
    | cons t items =>
      obtain ⟨ht, rfl⟩ := tagged?_array_iff.mp htag
      obtain ⟨hle, rfl⟩ := fields?_array_iff.mp hf
      refine ⟨_, fields?_array_iff.mpr ⟨Nat.succ_le_succ hle, rfl⟩, ?_, rfl, fun k hk => ?_⟩
      · rw [Fields.required?, List.zip_cons_cons, lookup_cons_eq_ite, if_pos rfl,
          Option.bind_some, ht]
      · rw [List.zip_cons_cons, lookup_cons_eq_ite, if_neg (hne k hk)]
  | _ => cases htag

/-- A record with a tag as its first field is a value of several kinds. -/
theorem tagged?_of_fields? (hg : r.fields? ("type" :: names) = some g)
    (ht : g.required? "type" (Reading.tag? tags) = some tag) : ∃ kind f,
      r.tagged? tags = some (tag, kind) ∧ kind.fields? names = some f ∧ f.listed = g.listed ∧
      ∀ k ∈ names, f.given.lookup k = g.given.lookup k := by
  have hne : ∀ k ∈ names, k ≠ "type" := fun k hk heq => htype (heq ▸ hk)
  obtain ⟨t, hlookup, ht⟩ := Option.bind_eq_some_iff.mp ht
  cases r with
  | object ms stop =>
    obtain ⟨hnodup, rfl⟩ := fields?_object_iff.mp hg
    have hrest := filter_ne_type_knownMembers names ms
    have htypes := filter_type_knownMembers names ms
    rw [filter_eq_singleton_of_lookup hnodup hlookup, eq_comm, List.map_eq_singleton_iff] at htypes
    obtain ⟨⟨key, t'⟩, hfilter, heq⟩ := htypes
    obtain rfl := (Prod.mk.inj heq).2
    refine ⟨_, _, tagged?_object_iff.mpr ⟨key, t', hfilter, ht, rfl⟩,
      fields?_object_iff.mpr ⟨?_, rfl⟩, rfl, fun k hk => ?_⟩
    · rw [← hrest]
      exact ((nodup_keys_iff "type" _).mp hnodup).2
    · have hlookup := lookup_filter (· ≠ "type") (knownMembers ("type" :: names) ms) k
      rwa [hrest, if_pos (decide_eq_true (hne k hk))] at hlookup
  | array items stop =>
    obtain ⟨hle, rfl⟩ := fields?_array_iff.mp hg
    cases items with
    | nil => cases hlookup
    | cons t' items =>
      rw [List.zip_cons_cons, lookup_cons_eq_ite, if_pos rfl] at hlookup
      obtain rfl := Option.some.inj hlookup
      refine ⟨_, _, tagged?_array_iff.mpr ⟨ht, rfl⟩,
        fields?_array_iff.mpr ⟨Nat.le_of_succ_le_succ hle, rfl⟩, rfl, fun k hk => ?_⟩
      rw [List.zip_cons_cons, lookup_cons_eq_ite, if_neg (hne k hk)]
  | _ => cases hg

end

/-- Whether the fields of one record are kept in another. -/
def RecordKept (fs : List Form.Field) (r r' : Reading) : Prop :=
  ∀ f, r.fields? (fs.map (·.name)) = some f →
    ∃ f', r'.fields? (fs.map (·.name)) = some f' ∧ FieldsKept fs f f'

/-- Where the fields are kept with the tag in front of them, the tag is kept and so are the fields
beside it. -/
theorem RecordKept.tagged {gs : List Form.Field} {r r' kind : Reading} {tags : List String}
    {tag : String} {f : Fields} (hgs : "type" ∉ gs.map (·.name))
    (h : RecordKept (.required "type" .single :: gs) r r')
    (htag : r.tagged? tags = some (tag, kind)) (hf : kind.fields? (gs.map (·.name)) = some f) :
    ∃ kind' f', r'.tagged? tags = some (tag, kind') ∧ kind'.fields? (gs.map (·.name)) = some f' ∧
      FieldsKept gs f f' := by
  obtain ⟨g, hg, ht, hlisted, hlookup⟩ := fields?_of_tagged? hgs htag hf
  obtain ⟨g', hg', hk⟩ := h g hg
  have ht' := hk.required (.single (Reading.tag? tags)) (List.mem_cons_self ..) ht
  obtain ⟨kind', f', htag', hf', hlisted', hlookup'⟩ := tagged?_of_fields? hgs hg' ht'
  refine ⟨kind', f', htag', hf', hlisted'.trans (hk.listed.trans hlisted), ?_, ?_⟩
  · intro x hx hnone
    have hname := List.mem_map_of_mem (f := fun x : Form.Field => x.name) hx
    rw [← hlookup _ hname] at hnone
    rw [hlookup' _ hname]
    exact hk.missing x (List.mem_cons_of_mem _ hx) hnone
  · intro x hx v hv
    have hname := List.mem_map_of_mem (f := fun x : Form.Field => x.name) hx
    rw [← hlookup _ hname] at hv
    rw [hlookup' _ hname, ← hlisted]
    exact hk.given x (List.mem_cons_of_mem _ hx) v hv

end Sema
