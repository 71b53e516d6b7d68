import Mathlib.Data.List.Forall2
import Mathlib.Data.List.Nodup
import Sema.Proofs.Shrinking

/-!
The check that comes before decoding. It passes what is encoded and no deeper than there is room;
and what it passes is, once decoded and encoded again, no deeper than there is room.
-/

namespace Sema.DecodeError

open Json (Reading depth_of_fields?)

variable {α : Type} {item : Check} {fields : List Field} {room : Nat} {r : Reading}

/-! ### What passes is not too deep -/

theorem list_ok {value? : Reading → Option α} {l : List α} (h : list item room r = .ok ())
    (hl : r.list? value? = some l) :
    ∃ n, room = n + 1 ∧ ∀ x ∈ l, ∃ v, item n v = .ok () ∧ value? v = some x := by
  cases r with
  | array items stop =>
    cases room with
    | zero => cases h
    | succ n =>
      rw [list, bind_eq_ok_iff] at h
      obtain ⟨_, hitems, -⟩ := h
      rw [Reading.list?, mapM_eq_some_iff] at hl
      refine ⟨n, rfl, fun x hx => ?_⟩
      have hmem : some x ∈ items.map value? := hl ▸ List.mem_map_of_mem hx
      obtain ⟨v, hv, hread⟩ := List.mem_map.mp hmem
      exact ⟨v, forM_eq_ok_iff.mp hitems v hv, hread⟩
  | _ => cases hl

theorem members_ok : ∀ {ms : Json.Members} {seen seen' : List String},
    members fields room seen ms = .ok seen' → ∀ k v, (some k, v) ∈ ms →
      k ∈ fields.map (·.name) → ∃ f ∈ fields, f.name = k ∧ f.value room v = .ok ()
  | [], _, _, _, _, _, hmem, _ => by cases hmem
  | (none, _) :: _, _, _, h, _, _, _, _ => by cases h
  | (some key, r) :: ms, seen, seen', h, k, v, hmem, hk => by
    rw [members] at h
    split at h
    · next f hf =>
      split at h
      · cases h
      · rw [bind_eq_ok_iff] at h
        obtain ⟨_, hr, h⟩ := h
        rcases List.mem_cons.mp hmem with heq | hmem
        · obtain ⟨hkey, rfl⟩ := Prod.mk.inj heq
          obtain rfl := Option.some.inj hkey
          exact ⟨f, List.mem_of_find?_eq_some hf, by simpa using List.find?_some hf, hr⟩
        · exact members_ok h k v hmem hk
    · next hnone =>
      rw [bind_eq_ok_iff] at h
      obtain ⟨_, -, h⟩ := h
      rcases List.mem_cons.mp hmem with heq | hmem
      · obtain ⟨hkey, rfl⟩ := Prod.mk.inj heq
        obtain rfl := Option.some.inj hkey
        obtain ⟨f, hf, hname⟩ := List.mem_map.mp hk
        exact absurd (beq_iff_eq.mpr hname) (List.find?_eq_none.mp hnone f hf)
      · exact members_ok h k v hmem hk

theorem items_ok {stop : Option Json.Halt} : ∀ {fields : List Field} {rs : List Reading},
    items room stop fields rs = .ok () → ∀ k v, (k, v) ∈ (fields.map (·.name)).zip rs →
      ∃ f ∈ fields, f.name = k ∧ f.value room v = .ok ()
  | [], _, _, _, _, hmem => by cases hmem
  | _ :: _, [], _, _, _, hmem => by cases hmem
  | f :: fields, r :: rs, h, k, v, hmem => by
    rw [items, bind_eq_ok_iff] at h
    obtain ⟨_, hr, h⟩ := h
    rcases List.mem_cons.mp hmem with heq | hmem
    · obtain ⟨rfl, rfl⟩ := Prod.mk.inj heq
      exact ⟨f, List.mem_cons_self .., rfl, hr⟩
    · obtain ⟨g, hg, hname, hv⟩ := items_ok h k v hmem
      exact ⟨g, List.mem_cons_of_mem _ hg, hname, hv⟩

/-- The fields of a record that passes have passed, with less room. -/
theorem record_ok {f : Reading.Fields} (h : record fields room r = .ok ())
    (hf : r.fields? (fields.map (·.name)) = some f) :
    ∃ n, room = n + 1 ∧ ∀ k v, (k, v) ∈ f.given →
      ∃ g ∈ fields, g.name = k ∧ g.value n v = .ok () := by
  cases r with
  | object ms stop =>
    cases room with
    | zero => cases h
    | succ n =>
      rw [record, bind_eq_ok_iff] at h
      obtain ⟨seen, hms, -⟩ := h
      rw [Reading.fields?] at hf
      split at hf
      · obtain rfl := Option.some.inj hf
        refine ⟨n, rfl, fun k v hgiven => ?_⟩
        obtain ⟨⟨key, v'⟩, hmem, heq⟩ := List.mem_filterMap.mp hgiven
        obtain ⟨k', rfl, hk⟩ := Option.bind_eq_some_iff.mp heq
        split at hk
        · next hcontains =>
          obtain ⟨rfl, rfl⟩ := Prod.mk.inj (Option.some.inj hk)
          exact members_ok hms _ _ hmem (List.contains_iff_mem.mp hcontains)
        · cases hk
      · cases hf
  | array rs stop =>
    cases room with
    | zero => cases h
    | succ n =>
      rw [record] at h
      rw [Reading.fields?] at hf
      split at hf
      · obtain rfl := Option.some.inj hf
        exact ⟨n, rfl, items_ok h⟩
      · cases hf
  | _ => cases hf

/-- A field that is read has passed. -/
theorem required_ok {f : Reading.Fields} {value? : Reading → Option α} {name : String} {x : α}
    {g : Field} {n : Nat} (hf : ∀ k v, (k, v) ∈ f.given →
      ∃ g ∈ fields, g.name = k ∧ g.value n v = .ok ())
    (hg : ∀ h ∈ fields, h.name = name → h = g) (hx : f.required? name value? = some x) :
    ∃ v, g.value n v = .ok () ∧ value? v = some x := by
  obtain ⟨v, hv, hread⟩ := Option.bind_eq_some_iff.mp hx
  obtain ⟨g', hmem, hname, hok⟩ := hf name v (mem_of_lookup hv)
  exact ⟨v, hg g' hmem hname ▸ hok, hread⟩

theorem declMembers_ok : ∀ {ms : Json.Members} {tagged tagged' : Bool},
    declMembers room tagged ms = .ok tagged' →
      ∀ m ∈ ms, m.1 ≠ some "type" → m.2.depth ≤ room
  | [], _, _, _, _, hm, _ => by cases hm
  | (none, _) :: _, _, _, h, _, _, _ => by cases h
  | (some key, r) :: ms, tagged, tagged', h, m, hm, hne => by
    rw [declMembers] at h
    split at h
    · next hkey =>
      split at h
      · cases h
      · rw [bind_eq_ok_iff] at h
        obtain ⟨_, -, h⟩ := h
        rcases List.mem_cons.mp hm with rfl | hm
        · exact absurd (congrArg some hkey) hne
        · exact declMembers_ok h m hm hne
    · rw [bind_eq_ok_iff] at h
      obtain ⟨_, hr, h⟩ := h
      rcases List.mem_cons.mp hm with rfl | hm
      · exact depth_le_of_whole _ hr
      · exact declMembers_ok h m hm hne

/-- What stands beside the tag of a declaration that passes is not too deep. -/
theorem depth_of_declText {tags : List String} {tag : String} {kind : Reading}
    (h : declText room r = .ok ()) (htag : r.tagged? tags = some (tag, kind)) :
    kind.depth ≤ room := by
  cases r with
  | object ms stop =>
    cases room with
    | zero => cases h
    | succ n =>
      rw [declText, bind_eq_ok_iff] at h
      obtain ⟨_, hms, -⟩ := h
      rw [Reading.tagged?] at htag
      split at htag
      · obtain ⟨_, -, heq⟩ := Option.bind_eq_some_iff.mp htag
        obtain ⟨-, rfl⟩ := Prod.mk.inj (Option.some.inj heq)
        refine Nat.succ_le_succ (Reading.depthMembers_le.mpr fun m hm => ?_)
        obtain ⟨hmem, hne⟩ := List.mem_filter.mp hm
        exact declMembers_ok hms m hmem (of_decide_eq_true hne)
      · cases htag
  | array rs stop =>
    cases rs with
    | nil => cases htag
    | cons t rs =>
      cases room with
      | zero => cases h
      | succ n =>
        simp only [declText, bind_eq_ok_iff] at h
        obtain ⟨_, -, _, hrs, -⟩ := h
        obtain ⟨_, -, heq⟩ := Option.bind_eq_some_iff.mp htag
        obtain ⟨-, rfl⟩ := Prod.mk.inj (Option.some.inj heq)
        exact Nat.succ_le_succ (depthAll_le_of_whole rs hrs)
  | _ => cases htag

/-- Whether what passes a check is, once decoded, encoded no deeper than there was room. -/
def Bounds (check : Check) (value? : Reading → Option α) (encode : α → Json) : Prop :=
  ∀ room r x, check room r = .ok () → value? r = some x → (encode x).depth ≤ room

theorem Bounds.list {value? : Reading → Option α} {encode : α → Json}
    (h : Bounds item value? encode) :
    Bounds (DecodeError.list item) (Reading.list? value?) fun l => .array (l.map encode) := by
  intro room r l hlist hl
  obtain ⟨n, rfl, hall⟩ := list_ok hlist hl
  refine Json.depth_array_le.mpr fun v hv => ?_
  obtain ⟨x, hx, rfl⟩ := List.mem_map.mp hv
  obtain ⟨v, hv, hread⟩ := hall x hx
  exact h n v x hv hread

theorem bounds_decl (k : Nat) : Bounds decl (Decl.ofReading? k) Decl.toJson := by
  intro room r d h hd
  rw [decl, bind_eq_ok_iff] at h
  obtain ⟨_, htext, -⟩ := h
  obtain ⟨tag, kind, htag, hle⟩ := Decl.depth_of_ofReading? hd
  exact Nat.le_trans hle (depth_of_declText htext htag)

theorem bounds_root (k : Nat) : Bounds root (SourceFile.rootOfReading? k) fun x =>
    .object (x.1.members ++ [("decls", .array (x.2.map Decl.toJson))]) := by
  rintro room r ⟨_, _⟩ h hx
  simp only [SourceFile.rootOfReading?, Option.bind_eq_bind, Option.bind_eq_some_iff,
    Option.pure_def, Option.some.injEq] at hx
  obtain ⟨f, hf, node, -, decls, hdecls, heq⟩ := hx
  obtain ⟨rfl, rfl⟩ := Prod.mk.inj heq
  obtain ⟨n, rfl, hgiven⟩ := record_ok h hf
  obtain ⟨v, hv, hread⟩ := required_ok (g := ⟨"decls", list decl, true⟩) hgiven (by simp) hdecls
  obtain ⟨m, rfl, -⟩ := list_ok hv hread
  have hle : (Json.array (decls.map Decl.toJson)).depth ≤ m + 1 :=
    (bounds_decl k).list _ _ _ hv hread
  simp only [Json.depth_object, Node.depthMembers_members, Json.depthMembers]
  omega

theorem bounds_sourceFile (k : Nat) :
    Bounds sourceFile (SourceFile.ofReading? k) SourceFile.toJson := by
  intro room r f h hf
  simp only [SourceFile.ofReading?, Option.bind_eq_bind, Option.bind_eq_some_iff, Option.pure_def,
    Option.some.injEq, Prod.exists] at hf
  obtain ⟨g, hg, path, -, node, decls, hroot, rfl⟩ := hf
  obtain ⟨n, rfl, hgiven⟩ := record_ok h hg
  obtain ⟨v, hv, hread⟩ := required_ok (g := ⟨"root", root, true⟩) hgiven (by simp) hroot
  have := bounds_root k _ _ _ hv hread
  simp only [SourceFile.toJson, Json.depth_object, Json.depthMembers, Json.depth_string] at this ⊢
  omega

theorem bounds_program (k : Nat) : Bounds program (Program.ofReading? k) Program.toJson := by
  intro room r p h hp
  simp only [Program.ofReading?, Option.bind_eq_bind, Option.bind_eq_some_iff, Option.pure_def,
    Option.some.injEq] at hp
  obtain ⟨f, hf, files, hfiles, entry, -, rfl⟩ := hp
  obtain ⟨n, rfl, hgiven⟩ := record_ok h hf
  obtain ⟨v, hv, hread⟩ :=
    required_ok (g := ⟨"files", list sourceFile, true⟩) hgiven (by simp) hfiles
  have hle : (Json.array (files.map SourceFile.toJson)).depth ≤ n :=
    (bounds_sourceFile k).list _ _ _ hv hread
  simp only [Program.toJson, Json.depth_object, Json.depthMembers, Json.depth_natural]
  omega

/-! ### What is encoded passes -/

/-- Whether a field is given by a member that passes. -/
def Field.TakenBy (f : Field) (room : Nat) (m : String × Json) : Prop :=
  m.1 = f.name ∧ f.value room m.2.toReading = .ok ()

theorem find?_name (hfields : (fields.map (·.name)).Nodup) {f : Field} (hf : f ∈ fields) :
    fields.find? (·.name == f.name) = some f := by
  have hsome : (fields.find? (·.name == f.name)).isSome := List.find?_isSome.mpr ⟨f, hf, by simp⟩
  obtain ⟨g, hg⟩ := Option.isSome_iff_exists.mp hsome
  have hname : g.name = f.name := by simpa using List.find?_some hg
  rw [hg, List.inj_on_of_nodup_map hfields (List.mem_of_find?_eq_some hg) hf hname]

/-- Members that give the fields in order pass; `before` are the fields that have been seen. -/
theorem members_toMembers : ∀ (before : List Field) {after : List Field}
    {ms : List (String × Json)},
    ((before ++ after).map (·.name)).Nodup → List.Forall₂ (Field.TakenBy · room) after ms →
      members (before ++ after) room (before.map (·.name)).reverse (Json.toMembers ms) =
        .ok ((before ++ after).map (·.name)).reverse
  | before, _, _, _, .nil => by
    rw [List.append_nil, Json.toMembers, members]
  | before, f :: after, (k, v) :: ms, hnodup, .cons ⟨hname, hv⟩ hms => by
    obtain rfl : k = f.name := hname
    have hnew : f.name ∉ before.map (·.name) := by
      rw [List.map_append, List.map_cons, List.nodup_middle, List.nodup_cons] at hnodup
      exact fun hmem => hnodup.1 (List.mem_append_left _ hmem)
    have hfind : (before ++ f :: after).find? (·.name == f.name) = some f :=
      find?_name hnodup (List.mem_append_right _ (List.mem_cons_self ..))
    have hseen : (before.map (·.name)).reverse.contains f.name = false := by
      simpa using hnew
    have hrest := members_toMembers (before ++ [f]) (by simpa using hnodup) hms
    rw [Json.toMembers, members]
    simp only [hfind, hseen, hv, Bool.false_eq_true, if_false]
    rw [List.append_assoc, List.singleton_append, List.map_append, List.reverse_append] at hrest
    exact hrest

/-- A record passes if each of its fields is given and passes. -/
theorem record_toReading {ms : List (String × Json)} (hnodup : (fields.map (·.name)).Nodup)
    (h : List.Forall₂ (Field.TakenBy · room) fields ms) :
    record fields (room + 1) (Json.object ms).toReading = .ok () := by
  have hms := members_toMembers [] hnodup h
  have hgiven : (fields.any fun f =>
      f.required && !((fields.map (·.name)).reverse.contains f.name)) = false := by
    refine List.any_eq_false.mpr fun f hf => ?_
    simp [List.mem_map_of_mem hf]
  rw [Json.toReading, record]
  refine bind_eq_ok_iff.mpr ⟨_, hms, ?_⟩
  refine bind_eq_ok_iff.mpr ⟨(), rfl, ?_⟩
  rw [List.nil_append, if_neg (by rw [hgiven]; decide)]
  rfl

/-- Whether a check passes what is encoded no deeper than there is room. -/
def Passes (check : Check) (encode : α → Json) : Prop :=
  ∀ room x, (encode x).depth ≤ room → check room (encode x).toReading = .ok ()

theorem Passes.list {encode : α → Json} (h : Passes item encode) :
    Passes (DecodeError.list item) fun l : List α => .array (l.map encode) := by
  intro room l hl
  cases room with
  | zero => cases hl
  | succ n =>
    have hitems : ((l.map encode).map Json.toReading).forM (item n) = .ok () := by
      refine forM_eq_ok_iff.mpr fun r hr => ?_
      obtain ⟨v, hv, rfl⟩ := List.mem_map.mp hr
      obtain ⟨x, -, rfl⟩ := List.mem_map.mp hv
      exact h n x (Json.depth_array_le.mp hl _ hv)
    rw [Json.toReading_array, DecodeError.list, hitems]
    rfl

theorem number_word32 (room : Nat) (n : UInt32) :
    number UInt32.size room (Json.natural n.toNat).toReading = .ok () := by
  rw [Json.toReading, number, Json.toNat_word32, if_pos n.toNat_lt]

theorem number_word64 (room : Nat) (n : UInt64) :
    number UInt64.size room (Json.natural n.toNat).toReading = .ok () := by
  rw [Json.toReading, number, UInt64.ofNat_toNat, if_pos n.toNat_lt]

theorem text_string (room : Nat) (s : String) : text room (Json.string s).toReading = .ok () := rfl

theorem passes_position : Passes position Position.toJson := by
  intro room p h
  cases room with
  | zero => cases h
  | succ n =>
    refine record_toReading (by decide) (.cons ⟨rfl, ?_⟩ (.cons ⟨rfl, ?_⟩ (.cons ⟨rfl, ?_⟩ .nil)))
    · exact number_word32 n p.line
    · exact number_word32 n p.column
    · exact number_word32 n p.offset

theorem declMembers_toMembers (tagged : Bool) : ∀ (ms : List (String × Json)),
    (∀ m ∈ ms, m.1 ≠ "type") → Json.depthMembers ms ≤ room →
      declMembers room tagged (Json.toMembers ms) = .ok tagged
  | [], _, _ => rfl
  | (k, v) :: ms, h, hd => by
    obtain ⟨hk, h⟩ := List.forall_mem_cons.mp h
    obtain ⟨hv, hd⟩ := Nat.max_le.mp hd
    rw [Json.toMembers, declMembers, if_neg hk, whole_toReading v hv,
      declMembers_toMembers tagged ms h hd]
    rfl

theorem declText_tagged {tag : String} {ms : List (String × Json)} (htag : tag ∈ Decl.tags)
    (h : ∀ m ∈ ms, m.1 ≠ "type") (hd : Json.depthMembers ms ≤ room) :
    declText (room + 1) (tagged tag ms).toReading = .ok () := by
  have hword : word Decl.tags (Json.string tag).toReading = .ok () := by
    rw [Json.toReading, word, if_pos (List.contains_iff_mem.mpr htag)]
  have hms : declMembers room false (Json.toMembers (("type", Json.string tag) :: ms)) =
      .ok true := by
    rw [Json.toMembers, declMembers, if_pos rfl, if_neg (by decide), hword]
    exact declMembers_toMembers true ms h hd
  rw [tagged, Json.toReading, declText]
  exact bind_eq_ok_iff.mpr ⟨true, hms, rfl⟩

theorem declText_toReading {d : Decl} (h : d.toJson.depth ≤ room) :
    declText room d.toJson.toReading = .ok () := by
  cases room with
  | zero => cases d <;> cases h
  | succ n =>
    cases d <;> exact declText_tagged (by decide) (by simp [Node.members])
      (Nat.le_of_succ_le_succ (by simpa [Decl.toJson] using h))

theorem passes_decl : Passes decl Decl.toJson := by
  intro room d h
  rw [decl, declText_toReading h, Decl.restores room d h]
  rfl

theorem passes_root {room : Nat} {n : Node} {ds : List Decl}
    (h : (Json.array (ds.map Decl.toJson)).depth < room) :
    root room (Json.object (n.members ++ [("decls", .array (ds.map Decl.toJson))])).toReading =
      .ok () := by
  obtain ⟨room, rfl⟩ := Nat.exists_eq_succ_of_ne_zero (Nat.ne_zero_of_lt h)
  have hdecls := passes_decl.list room ds (Nat.le_of_lt_succ h)
  have hpos : n.pos.toJson.depth ≤ room :=
    Nat.le_trans (Nat.le_add_left ..) (Nat.le_of_lt_succ h)
  refine record_toReading (by decide) (.cons ⟨rfl, ?_⟩ (.cons ⟨rfl, ?_⟩ (.cons ⟨rfl, ?_⟩ .nil)))
  · exact number_word32 room n.id.value
  · exact passes_position room n.pos hpos
  · exact hdecls

theorem passes_sourceFile : Passes sourceFile SourceFile.toJson := by
  intro room f h
  simp only [SourceFile.toJson, Json.depth_object, Node.depthMembers_members, Json.depthMembers,
    Json.depth_string] at h
  obtain ⟨room, rfl⟩ : ∃ n, room = n + 1 := ⟨room - 1, by omega⟩
  refine record_toReading (by decide) (.cons ⟨rfl, ?_⟩ (.cons ⟨rfl, ?_⟩ .nil))
  · exact text_string room f.path
  · exact passes_root (by omega)

/-- What is encoded passes the check, as far as there is room. -/
theorem passes_program : Passes program Program.toJson := by
  intro room p h
  simp only [Program.toJson, Json.depth_object, Json.depthMembers, Json.depth_natural] at h
  obtain ⟨room, rfl⟩ : ∃ n, room = n + 1 := ⟨room - 1, by omega⟩
  have hfiles : (Json.array (p.files.map SourceFile.toJson)).depth ≤ room := by omega
  refine record_toReading (by decide) (.cons ⟨rfl, ?_⟩ (.cons ⟨rfl, ?_⟩ .nil))
  · exact passes_sourceFile.list room p.files hfiles
  · exact number_word64 room p.entry

end Sema.DecodeError
