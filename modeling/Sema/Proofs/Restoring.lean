import Sema.Program.Encode
import Sema.Proofs.JsonDepth

/-!
What is encoded is decoded again: each part of a program is restored from its JSON form, as long as
this is no deeper than the reader may go.
-/

namespace Sema

open Json (Reading)

namespace Json

/-- Whether a reader restores what is encoded no deeper than `k`. -/
def Restores {α : Type} (k : Nat) (value? : Reading → Option α) (encode : α → Json) : Prop :=
  ∀ x, (encode x).depth ≤ k → value? (encode x).toReading = some x

/-- The fields that the members of an object give. -/
def fieldsOf (ms : List (String × Json)) : Reading.Fields :=
  ⟨ms.map fun m => (m.1, m.2.toReading), false⟩

section

variable {α : Type} {names : List String} {ms : List (String × Json)} {name : String}
  {value? : Reading → Option α}

theorem fields?_toReading (h : ms.map Prod.fst = names) (hnodup : names.Nodup) :
    (object ms).toReading.fields? names = some (fieldsOf ms) := by
  have hknown : Reading.knownMembers names (toMembers ms) =
      ms.map fun m => (m.1, m.2.toReading) := by
    rw [toMembers_eq_map, Reading.knownMembers, List.filterMap_map, ← List.filterMap_eq_map]
    refine List.filterMap_congr fun m hm => ?_
    have hmem : m.1 ∈ names := h ▸ List.mem_map_of_mem hm
    simp [hmem]
  have hkeys : (ms.map fun m => (m.1, m.2.toReading)).map (·.1) = names := by
    rw [List.map_map, ← h]
    rfl
  rw [toReading, Reading.fields?, hknown, hkeys, if_pos hnodup, fieldsOf]

section

variable (k : String) (v : Json) (ms) (name) (value?)

@[simp] theorem required?_fieldsOf : (fieldsOf ((k, v) :: ms)).required? name value? =
    if name = k then value? v.toReading else (fieldsOf ms).required? name value? := by
  rw [fieldsOf, List.map_cons, Reading.Fields.required?, List.lookup_cons]
  by_cases h : name = k
  · rw [if_pos h, beq_iff_eq.mpr h]
    rfl
  · rw [if_neg h, beq_eq_false_iff_ne.mpr h]
    rfl

@[simp] theorem defaulted?_fieldsOf (default : α) :
    (fieldsOf ((k, v) :: ms)).defaulted? name value? default =
      if name = k then value? v.toReading else (fieldsOf ms).defaulted? name value? default := by
  rw [fieldsOf, List.map_cons, Reading.Fields.defaulted?, List.lookup_cons]
  by_cases h : name = k
  · rw [if_pos h, beq_iff_eq.mpr h]
  · rw [if_neg h, beq_eq_false_iff_ne.mpr h]
    rfl

theorem nullable?_fieldsOf_of_ne (h : name ≠ k) :
    (fieldsOf ((k, v) :: ms)).nullable? name value? = (fieldsOf ms).nullable? name value? := by
  rw [fieldsOf, List.map_cons, Reading.Fields.nullable?, List.lookup_cons,
    beq_eq_false_iff_ne.mpr h]
  rfl

end

/-- What is absent is restored if null is not read as a value. -/
theorem Restores.nullable {k : Nat} {encode : α → Json} (h : Restores k value? encode)
    (hnull : value? .null = none) {x : Option α} (hx : (ofOption encode x).depth ≤ k) :
    (fieldsOf ((name, ofOption encode x) :: ms)).nullable? name value? = some x := by
  rw [fieldsOf, List.map_cons, Reading.Fields.nullable?, List.lookup_cons_self]
  cases x with
  | none => rfl
  | some y =>
    have hy := h y hx
    rw [ofOption]
    split
    · next heq => cases heq
    · next heq =>
      rw [Option.some.inj heq, hnull] at hy
      cases hy
    · next heq => rw [← Option.some.inj heq, hy]; rfl

end

/-! ### Single values -/

theorem toNat_word32 (n : UInt32) : (UInt64.ofNat n.toNat).toNat = n.toNat :=
  UInt64.toNat_ofNat_of_lt (Nat.lt_trans n.toNat_lt (by decide))

@[simp] theorem word32?_toReading (n : UInt32) :
    (natural n.toNat).toReading.word32? = some n := by
  rw [toReading, Reading.word32?, toNat_word32, if_pos n.toNat_lt, UInt64.toUInt32_ofNat',
    UInt32.ofNat_toNat]

@[simp] theorem word64?_toReading (n : UInt64) : (natural n.toNat).toReading.word64? = some n := by
  rw [toReading, Reading.word64?, UInt64.ofNat_toNat]

@[simp] theorem text?_toReading (s : String) : (string s).toReading.text? = some s := rfl

@[simp] theorem choice?_toReading {α : Type} (ofWord? : String → Option α) (w : String) :
    (string w).toReading.choice? ofWord? = ofWord? w := rfl

@[simp] theorem bool?_toReading (b : Bool) : (Json.bool b).toReading.bool? = some b := rfl

/-! ### Lists and tags -/

theorem toReading_array (vs : List Json) :
    (array vs).toReading = .array (vs.map toReading) none := by
  rw [toReading, toReadings_eq_map]

theorem list?_toReading {value? : Reading → Option α} {encode : α → Json} {l : List α}
    (h : ∀ x ∈ l, value? (encode x).toReading = some x) :
    (array (l.map encode)).toReading.list? value? = some l := by
  rw [toReading_array, List.map_map, Reading.list?, mapM_eq_some_iff, List.map_map]
  exact List.map_congr_left h

theorem Restores.list {k : Nat} {value? : Reading → Option α} {encode : α → Json}
    (h : Restores k value? encode) {l : List α} (hl : (array (l.map encode)).depth ≤ k + 1) :
    (array (l.map encode)).toReading.list? value? = some l :=
  list?_toReading fun x hx => h x (depth_array_le.mp hl _ (List.mem_map_of_mem hx))

theorem tagged?_toReading {tags : List String} {tag : String} {ms : List (String × Json)}
    (htag : tag ∈ tags) (h : ∀ m ∈ ms, m.1 ≠ "type") :
    (tagged tag ms).toReading.tagged? tags = some (tag, (object ms).toReading) := by
  have hothers : ∀ m ∈ ms.map fun m => (some m.1, m.2.toReading), m.1 ≠ some "type" := by
    intro m hm
    obtain ⟨m', hm', rfl⟩ := List.mem_map.mp hm
    exact fun heq => h m' hm' (Option.some.inj heq)
  have hnone : (ms.map fun m => (some m.1, m.2.toReading)).filter (·.1 = some "type") = [] :=
    List.filter_eq_nil_iff.mpr fun m hm => by simpa using hothers m hm
  have hall : (ms.map fun m => (some m.1, m.2.toReading)).filter (·.1 ≠ some "type") =
      ms.map fun m => (some m.1, m.2.toReading) :=
    List.filter_eq_self.mpr fun m hm => by simpa using hothers m hm
  rw [tagged, toReading, toReading, toMembers_eq_map, toMembers_eq_map, List.map_cons,
    Reading.tagged?, List.filter_cons_of_pos (by simp), List.filter_cons_of_neg (by simp), hnone,
    hall]
  simp [toReading, Reading.tag?, htag]

end Json

/-! ### Records -/

open Json (fields?_toReading tagged?_toReading list?_toReading)

theorem Position.restores (p : Position) : Position.ofReading? p.toJson.toReading = some p := by
  simp [Position.ofReading?, Position.toJson, Position.fieldNames, fields?_toReading]

@[simp] theorem Node.ofFields?_fieldsOf (n : Node) (ms : List (String × Json)) :
    Node.ofFields? (Json.fieldsOf (("id", n.id.toJson) :: ("pos", n.pos.toJson) :: ms)) =
      some n := by
  simp [Node.ofFields?, NodeId.ofReading?, NodeId.toJson, Position.restores]

theorem Directive.restores (d : Directive) : Directive.ofReading? d.toJson.toReading = some d := by
  simp [Directive.ofReading?, Directive.toJson, Node.members, fields?_toReading]

@[simp] theorem directives_restores (ds : List Directive) :
    (directivesToJson ds).toReading.list? Directive.ofReading? = some ds :=
  list?_toReading fun d _ => d.restores

/-! ### Trees -/

/-- A node is as deep as its other members, but no less deep than its position. -/
@[simp] theorem Node.depthMembers_members (n : Node) (ms : List (String × Json)) :
    Json.depthMembers (n.members ++ ms) = max 1 (Json.depthMembers ms) := by
  simp [members, NodeId.toJson, Position.toJson, Json.depth, Json.depthMembers]

/-- A tag makes nothing deeper. -/
@[simp] theorem depth_tagged (tag : String) (ms : List (String × Json)) :
    (tagged tag ms).depth = (Json.object ms).depth := by
  simp [tagged, Json.depth, Json.depthMembers]

/-- The members of a kind lie two levels below the node. -/
@[simp] theorem Node.depth_withKind (n : Node) (tag : String) (ms : List (String × Json)) :
    (n.withKind tag ms).depth = Json.depthMembers ms + 2 := by
  simp [withKind, Json.depthMembers]

theorem TypeRef.restores : ∀ k, Json.Restores k (TypeRef.ofReading? k) TypeRef.toJson
  | 0, t, h => by cases t <;> cases h
  | k + 1, .named n name, _ => by
    simp [TypeRef.ofReading?, TypeRef.toJson, Node.members, fields?_toReading, tagged?_toReading,
      tags]
  | k + 1, .pointer n m child, h => by
    have hchild : child.toJson.depth ≤ k := by
      simp only [toJson, Json.depth_object, Node.depthMembers_members, Json.depthMembers,
        depth_tagged] at h
      omega
    simp [TypeRef.ofReading?, TypeRef.toJson, Node.members, fields?_toReading, tagged?_toReading,
      tags, TypeRef.restores k child hchild]

/-- An expression is read by its kind. -/
theorem Expr.ofReading?_withKind {n : Node} {tag : String} {ms : List (String × Json)}
    (htag : tag ∈ tags) (h : ∀ m ∈ ms, m.1 ≠ "type") (k : Nat) :
    Expr.ofReading? (k + 1) (n.withKind tag ms).toReading =
      Expr.ofKind? k (Expr.ofReading? k) n tag (Json.object ms).toReading := by
  simp [Expr.ofReading?, Node.withKind, Node.members, fields?_toReading, tagged?_toReading htag h]

theorem exprsToJson_eq_map (l : List Expr) : exprsToJson l = l.map Expr.toJson := by
  induction l with
  | nil => rfl
  | cons e l ih => rw [exprsToJson, ih, List.map_cons]

theorem optionalExprToJson_eq (e : Option Expr) :
    optionalExprToJson e = Json.ofOption Expr.toJson e := by
  cases e <;> rfl

theorem Expr.restores : ∀ k, Json.Restores k (Expr.ofReading? k) Expr.toJson
  | 0, e, h => by cases e <;> simp [Expr.toJson] at h
  | k + 1, e, h => by
    have ih := Expr.restores k
    have hnull : Expr.ofReading? k .null = none := by cases k <;> rfl
    cases e with
    | block n l =>
      rw [toJson, exprsToJson_eq_map] at h ⊢
      simp only [Node.depth_withKind, Json.depthMembers] at h
      rw [ofReading?_withKind (by decide) (by simp)]
      simp [ofKind?, fields?_toReading, ih.list (l := l) (by omega)]
    | ret n v =>
      rw [toJson, optionalExprToJson_eq] at h ⊢
      simp only [Node.depth_withKind, Json.depthMembers] at h
      rw [ofReading?_withKind (by decide) (by simp)]
      simp [ofKind?, fields?_toReading, ih.nullable hnull (x := v) (by omega)]
    | binary n op l r =>
      rw [toJson] at h ⊢
      simp only [Node.depth_withKind, Json.depthMembers] at h
      rw [ofReading?_withKind (by decide) (by simp)]
      simp [ofKind?, fields?_toReading, BinaryOp.ofWord?_word, ih l (by omega), ih r (by omega)]
    | call n c args =>
      rw [toJson, exprsToJson_eq_map] at h ⊢
      simp only [Node.depth_withKind, Json.depthMembers] at h
      rw [ofReading?_withKind (by decide) (by simp)]
      simp [ofKind?, fields?_toReading, ih c (by omega), ih.list (l := args) (by omega)]
    | number _ _ | string _ _ | unreachable _ | void _ | symbol _ _ =>
      rw [toJson, ofReading?_withKind (by decide) (by simp)]
      simp [ofKind?, fields?_toReading]
    | cast n e t =>
      rw [toJson] at h ⊢
      simp only [Node.depth_withKind, Json.depthMembers] at h
      rw [ofReading?_withKind (by decide) (by simp)]
      simp [ofKind?, fields?_toReading, ih e (by omega), t.restores k (by omega)]
    | unary n op e =>
      rw [toJson] at h ⊢
      simp only [Node.depth_withKind, Json.depthMembers] at h
      rw [ofReading?_withKind (by decide) (by simp)]
      simp [ofKind?, fields?_toReading, UnaryOp.ofWord?_word, ih e (by omega)]
    | cond n c th el =>
      rw [toJson, optionalExprToJson_eq] at h ⊢
      simp only [Node.depth_withKind, Json.depthMembers] at h
      rw [ofReading?_withKind (by decide) (by simp)]
      simp [ofKind?, fields?_toReading, Json.nullable?_fieldsOf_of_ne, ih c (by omega),
        ih th (by omega), ih.nullable hnull (x := el) (by omega)]

/-! ### Declarations and programs -/

theorem Param.restores (k : Nat) : Json.Restores k (Param.ofReading? k) Param.toJson := by
  intro p h
  simp only [toJson, Json.depth_object, Node.depthMembers_members, Json.depthMembers] at h
  simp [ofReading?, toJson, Node.members, fields?_toReading, p.type.restores k (by omega)]

theorem Prototype.restores (k : Nat) :
    Json.Restores k (Prototype.ofReading? k) Prototype.toJson := by
  intro p h
  simp only [toJson, Json.depth_object, Node.depthMembers_members, Json.depthMembers] at h
  simp [ofReading?, toJson, Node.members, fields?_toReading, Visibility.ofWord?_word, directives?,
    p.returnType.restores k (by omega), (Param.restores k).list (l := p.params) (by omega)]

theorem ExternalFn.restores (k : Nat) :
    Json.Restores k (ExternalFn.ofReading? k) ExternalFn.toJson := by
  intro f h
  simp only [toJson, Json.depth_object, Node.depthMembers_members, Json.depthMembers] at h
  simp [ofReading?, toJson, Node.members, fields?_toReading, f.proto.restores k (by omega)]

theorem Decl.restores (k : Nat) : Json.Restores k (Decl.ofReading? k) Decl.toJson := by
  intro d h
  cases d with
  | fnDef d =>
    simp only [toJson, depth_tagged, Json.depth_object, Node.depthMembers_members,
      Json.depthMembers] at h
    simp [ofReading?, toJson, tagged?_toReading, tags, Node.members, FnDef.ofReading?,
      fields?_toReading, d.proto.restores k (by omega), d.body.restores k (by omega)]
  | externalBlock b =>
    simp only [toJson, depth_tagged, Json.depth_object, Node.depthMembers_members,
      Json.depthMembers] at h
    simp [ofReading?, toJson, tagged?_toReading, tags, Node.members, ExternalBlock.ofReading?,
      fields?_toReading, directives?, (ExternalFn.restores k).list (l := b.functions) (by omega)]
  | rootExport e =>
    simp [ofReading?, toJson, tagged?_toReading, tags, Node.members, RootExport.ofReading?,
      fields?_toReading, directives?]
  | use u =>
    simp [ofReading?, toJson, tagged?_toReading, tags, Node.members, UseDecl.ofReading?,
      fields?_toReading, directives?]

theorem SourceFile.restores (k : Nat) :
    Json.Restores k (SourceFile.ofReading? k) SourceFile.toJson := by
  intro f h
  simp only [toJson, Json.depth_object, Node.depthMembers_members, Json.depthMembers] at h
  simp [ofReading?, rootOfReading?, toJson, Node.members, fields?_toReading,
    (Decl.restores k).list (l := f.decls) (by omega)]

/-- A program is restored from its JSON form. -/
theorem Program.restores (k : Nat) : Json.Restores k (Program.ofReading? k) Program.toJson := by
  intro p h
  simp only [toJson, Json.depth_object, Json.depthMembers] at h
  simp [ofReading?, toJson, fields?_toReading,
    (SourceFile.restores k).list (l := p.files) (by omega)]

end Sema
