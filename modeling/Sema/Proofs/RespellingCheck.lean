import Sema.Proofs.JsonText
import Sema.Proofs.Respelling
import Sema.Proofs.TextCheck

/-!
Decoding does not depend on the spelling. The check that comes before decoding stops at the first
fault and so looks at the members of an object one after the other. Whether there is a fault at all
depends on each member alone, on which fields are given twice, and on which are missing. So what is
respelled passes as before, and is then decoded as before.
-/

namespace Sema

open Json (Reading Members)
open Json.Reading (knownMembers)

namespace DecodeError

variable {room : Nat} {ms : Members} {rs : List Reading} {r r' : Reading}
  {stop : Option Json.Halt}

/-- What holds of all items holds of them after a change of one. -/
theorem forall_mem_set {p : Reading → Prop} {i : Nat} {v v' : Reading} (given : rs[i]? = some v)
    (hp : p v → p v') (h : ∀ x ∈ rs, p x) : ∀ x ∈ rs.set i v', p x := by
  intro x hx
  rcases List.mem_or_eq_of_mem_set hx with hx | rfl
  · exact h x hx
  · exact hp (h v (List.mem_of_getElem? given))

theorem stopNeeded_eq_ok_iff : stopNeeded stop = .ok () ↔ stop = none := by
  cases stop <;> simp [stopNeeded]

/-! ### Values of any form -/

theorem wholeItems_eq_ok_iff : wholeItems room rs = .ok () ↔ ∀ r ∈ rs, whole room r = .ok () := by
  induction rs with
  | nil => simp [wholeItems]
  | cons r rs ih =>
    rw [wholeItems, step_eq_ok_iff, ih, List.forall_mem_cons]

theorem wholeMembers_eq_ok_iff :
    wholeMembers room ms = .ok () ↔ ∀ m ∈ ms, m.1.isSome ∧ whole room m.2 = .ok () := by
  induction ms with
  | nil => simp [wholeMembers]
  | cons m ms ih =>
    obtain ⟨_ | key, r⟩ := m
    · simp [wholeMembers]
    · rw [wholeMembers, step_eq_ok_iff, ih, List.forall_mem_cons]
      simp

theorem whole_array_iff : whole (room + 1) (.array rs stop) = .ok () ↔
    (∀ r ∈ rs, whole room r = .ok ()) ∧ stop = none := by
  rw [whole, step_eq_ok_iff, wholeItems_eq_ok_iff, stopNeeded_eq_ok_iff]

theorem whole_object_iff : whole (room + 1) (.object ms stop) = .ok () ↔
    (∀ m ∈ ms, m.1.isSome ∧ whole room m.2 = .ok ()) ∧ stop = none := by
  rw [whole, step_eq_ok_iff, wholeMembers_eq_ok_iff, stopNeeded_eq_ok_iff]

mutual

/-- A JSON value for which there is room is read as a whole. -/
theorem whole_of_complete : ∀ {r : Reading} {room : Nat}, r.Complete → r.depth ≤ room →
    whole room r = .ok ()
  | .null, room, _, _ => by cases room <;> rfl
  | .bool _, room, _, _ => by cases room <;> rfl
  | .number (.natural _), room, _, _ => by cases room <;> rfl
  | .number (.other inRange), room, h, _ => by cases room <;> exact if_pos h
  | .string (some _), room, _, _ => by cases room <;> rfl
  | .string none, _, h, _ => by cases h
  | .broken _, _, h, _ => by cases h
  | .array items _, room + 1, ⟨rfl, h⟩, hd =>
    whole_array_iff.mpr ⟨wholeItems_eq_ok_iff.mp
      (wholeItems_of_complete h (Nat.le_of_succ_le_succ hd)), rfl⟩
  | .object members _, room + 1, ⟨rfl, h⟩, hd =>
    whole_object_iff.mpr ⟨wholeMembers_eq_ok_iff.mp
      (wholeMembers_of_complete h (Nat.le_of_succ_le_succ hd)), rfl⟩

theorem wholeItems_of_complete : ∀ {rs : List Reading} {room : Nat}, Reading.CompleteAll rs →
    Reading.depthAll rs ≤ room → wholeItems room rs = .ok ()
  | [], _, _, _ => rfl
  | r :: rs, room, ⟨hr, hrs⟩, hd => by
    obtain ⟨hd, hds⟩ := Nat.max_le.mp hd
    rw [wholeItems, whole_of_complete hr hd]
    exact wholeItems_of_complete hrs hds

theorem wholeMembers_of_complete : ∀ {ms : Members} {room : Nat}, Reading.CompleteMembers ms →
    Reading.depthMembers ms ≤ room → wholeMembers room ms = .ok ()
  | [], _, _, _ => rfl
  | (none, _) :: _, _, ⟨h, _⟩, _ => by cases h
  | (some _, r) :: ms, room, ⟨_, hr, hms⟩, hd => by
    obtain ⟨hd, hds⟩ := Nat.max_le.mp hd
    rw [wholeMembers, whole_of_complete hr hd]
    exact wholeMembers_of_complete hms hds

end

/-- A JSON value can be skipped. -/
theorem skip_of_complete (h : r.Complete) : skip r = .ok () := by
  cases r with
  | broken => cases h
  | array items stop =>
    obtain rfl := h.1
    rfl
  | object members stop =>
    obtain rfl := h.1
    rfl
  | _ => rfl

/-! ### Checks by form -/

/-- The checks of values of a form. What is inside of a declaration is read as a whole. -/
inductive CheckedBy : Form → Check → Prop where
  | whole (F : Form) : CheckedBy F whole
  | single (check : Check) : CheckedBy .single check
  | list {F : Form} {item : Check} (h : CheckedBy F item) : CheckedBy (.list F) (list item)
  | position : CheckedBy .position position
  | decl : CheckedBy .decl decl
  | root : CheckedBy .root root
  | sourceFile : CheckedBy .sourceFile sourceFile
  | program : CheckedBy .program program

/-- Whether every check of a form passes one value if it passes another. -/
def Passing (room : Nat) (F : Form) (r r' : Reading) : Prop :=
  ∀ ⦃check : Check⦄, CheckedBy F check → check room r = .ok () → check room r' = .ok ()

/-- Whether a value may be added. -/
def Fitting (room : Nat) (v : Reading) : Prop := v.Complete ∧ v.depth ≤ room

section

variable {fs : List Form.Field}

/-- What is read as a whole is so after a change. -/
theorem whole_edited (h : Edits fs (Fitting room) (Passing room) r r')
    (hr : whole (room + 1) r = .ok ()) : whole (room + 1) r' = .ok () := by
  cases h with
  | permute perm =>
    rw [whole_object_iff] at hr ⊢
    exact ⟨fun m hm => hr.1 m (perm.mem_iff.mpr hm), hr.2⟩
  | insert unknown any =>
    rw [whole_object_iff] at hr ⊢
    exact ⟨List.forall_mem_cons.mpr ⟨⟨rfl, whole_of_complete any.1 any.2⟩, hr.1⟩, hr.2⟩
  | drop mem default =>
    rw [whole_object_iff] at hr ⊢
    exact ⟨fun m hm => hr.1 m (List.mem_append.mp hm |>.elim (List.mem_append_left _)
      fun hm => List.mem_append_right _ (List.mem_cons_of_mem _ hm)), hr.2⟩
  | member mem same =>
    rw [whole_object_iff, List.forall_mem_append, List.forall_mem_cons] at hr ⊢
    obtain ⟨⟨hbefore, ⟨hkey, hv⟩, hafter⟩, hstop⟩ := hr
    exact ⟨⟨hbefore, ⟨hkey, same (.whole _) hv⟩, hafter⟩, hstop⟩
  | item field given same =>
    rw [whole_array_iff] at hr ⊢
    exact ⟨forall_mem_set given (same (.whole _)) hr.1, hr.2⟩

/-! ### Records -/

variable {fields : List Field}

/-- The fields that are given by members, by name and in order. -/
def givenNames (fields : List Field) (ms : Members) : List String :=
  (knownMembers (fields.map (·.name)) ms).map (·.1)

/-- Whether a member of an object passes if its fields are the given ones. -/
def MemberPasses (fields : List Field) (room : Nat) (m : Option String × Reading) : Prop :=
  ∃ key, m.1 = some key ∧ (∀ f ∈ fields, f.name = key → f.value room m.2 = .ok ()) ∧
    (key ∉ fields.map (·.name) → skip m.2 = .ok ())

theorem givenNames_append (l m : Members) :
    givenNames fields (l ++ m) = givenNames fields l ++ givenNames fields m := by
  rw [givenNames, knownMembers_append, List.map_append]
  rfl

theorem givenNames_cons_of_mem {key : String} (h : key ∈ fields.map (·.name)) :
    givenNames fields ((some key, r) :: ms) = key :: givenNames fields ms := by
  rw [givenNames, ← List.nil_append ((some key, r) :: ms), knownMembers_middle h]
  rfl

theorem givenNames_cons_of_not_mem {key : String} (h : key ∉ fields.map (·.name)) :
    givenNames fields ((some key, r) :: ms) = givenNames fields ms := by
  rw [givenNames, knownMembers_cons_of_not_mem h]
  rfl

theorem givenNames_middle {before after : Members} {key : String}
    (h : key ∈ fields.map (·.name)) : givenNames fields (before ++ (some key, r) :: after) =
      givenNames fields before ++ key :: givenNames fields after := by
  rw [givenNames_append, givenNames_cons_of_mem h]

theorem givenNames_perm {ms ms' : Members} (h : ms.Perm ms') :
    (givenNames fields ms).Perm (givenNames fields ms') :=
  (knownMembers_perm _ h).map _

/-- A field passes by its own check. -/
theorem memberPasses_field_iff (hfields : (fields.map (·.name)).Nodup) {f : Field}
    (hf : f ∈ fields) : MemberPasses fields room (some f.name, r) ↔ f.value room r = .ok () := by
  refine ⟨fun ⟨key, heq, h, _⟩ => h f hf (Option.some.inj heq), fun h =>
    ⟨f.name, rfl, fun g hg hname => ?_, fun hnot => absurd (List.mem_map_of_mem hf) hnot⟩⟩
  rwa [List.inj_on_of_nodup_map hfields hg hf hname]

/-- What is no field is skipped. -/
theorem memberPasses_unknown_iff {key : String} (h : key ∉ fields.map (·.name)) :
    MemberPasses fields room (some key, r) ↔ skip r = .ok () :=
  ⟨fun ⟨_, heq, _, hskip⟩ => hskip (Option.some.inj heq ▸ h), fun hskip =>
    ⟨key, rfl, fun f hf hname => absurd (List.mem_map.mpr ⟨f, hf, hname⟩) h, fun _ => hskip⟩⟩

/-- The members of an object pass if each of them does and no field is given twice. -/
theorem members_eq_ok_iff (hfields : (fields.map (·.name)).Nodup) : ∀ {ms : Members}
    {seen seen' : List String}, members fields room seen ms = .ok seen' ↔
      (∀ m ∈ ms, MemberPasses fields room m) ∧ (givenNames fields ms).Nodup ∧
      (∀ k ∈ givenNames fields ms, k ∉ seen) ∧ seen' = (givenNames fields ms).reverse ++ seen
  | [], seen, seen' => by simp [members, givenNames, knownMembers, eq_comm]
  | (none, _) :: _, _, _ => by simp [members, MemberPasses]
  | (some key, r) :: ms, seen, seen' => by
    rw [members, List.forall_mem_cons]
    by_cases hkey : key ∈ fields.map (·.name)
    · obtain ⟨f, hf, rfl⟩ := List.mem_map.mp hkey
      rw [find?_name hfields hf, memberPasses_field_iff hfields hf, givenNames_cons_of_mem hkey]
      simp only [List.contains_iff_mem, List.nodup_cons, List.forall_mem_cons, List.reverse_cons,
        List.append_assoc, List.singleton_append]
      -- a field that was given before is a fault; a new one counts as seen for the rest
      split
      · next hseen => simp [hseen]
      · next hseen =>
        rw [step_eq_ok_iff, members_eq_ok_iff hfields]
        constructor
        · rintro ⟨hv, hms, hnodup, hnew, rfl⟩
          exact ⟨⟨hv, hms⟩, ⟨fun hmem => hnew _ hmem (List.mem_cons_self ..), hnodup⟩,
            ⟨hseen, fun k hk hmem => hnew k hk (List.mem_cons_of_mem _ hmem)⟩, rfl⟩
        · rintro ⟨⟨hv, hms⟩, ⟨hnot, hnodup⟩, ⟨-, hnew⟩, rfl⟩
          refine ⟨hv, hms, hnodup, fun k hk hmem => ?_, rfl⟩
          rcases List.mem_cons.mp hmem with rfl | hmem
          · exact hnot hk
          · exact hnew k hk hmem
    · have hfind : fields.find? (·.name == key) = none :=
        List.find?_eq_none.mpr fun f hf heq =>
          hkey (List.mem_map.mpr ⟨f, hf, beq_iff_eq.mp heq⟩)
      rw [hfind, memberPasses_unknown_iff hkey, givenNames_cons_of_not_mem hkey]
      simp only [step_eq_ok_iff, members_eq_ok_iff hfields, and_assoc]

/-- An object passes if its members do and no field that has to be given is missing. -/
theorem record_object_iff (hfields : (fields.map (·.name)).Nodup) :
    record fields (room + 1) (.object ms stop) = .ok () ↔
      (∀ m ∈ ms, MemberPasses fields room m) ∧ (givenNames fields ms).Nodup ∧ stop = none ∧
        ∀ f ∈ fields, f.required → f.name ∈ givenNames fields ms := by
  have hmissing : ∀ seen : List String,
      ¬ (fields.any fun f => f.required && !seen.contains f.name) = true ↔
        ∀ f ∈ fields, f.required → f.name ∈ seen := by
    intro seen
    simp
  rw [record, bind_eq_ok_iff]
  simp only [members_eq_ok_iff hfields, step_eq_ok_iff, stopNeeded_eq_ok_iff, refuse_eq_ok_iff,
    hmissing]
  constructor
  · rintro ⟨_, ⟨hms, hnodup, -, rfl⟩, hstop, hgiven⟩
    exact ⟨hms, hnodup, hstop, by simpa using hgiven⟩
  · rintro ⟨hms, hnodup, hstop, hgiven⟩
    exact ⟨_, ⟨hms, hnodup, by simp, rfl⟩, hstop, by simpa using hgiven⟩

/-- A list passes after a change of one item. -/
theorem passing_list {F : Form} {i : Nat} {v v' : Reading} (given : rs[i]? = some v)
    (same : Passing room F v v') :
    Passing (room + 1) (.list F) (.array rs stop) (.array (rs.set i v') stop) := by
  intro check hcheck hr
  cases hcheck with
  | whole =>
    rw [whole_array_iff] at hr ⊢
    exact ⟨forall_mem_set given (same (.whole F)) hr.1, hr.2⟩
  | list hitem =>
    rw [list, step_eq_ok_iff, forM_eq_ok_iff] at hr ⊢
    exact ⟨forall_mem_set given (same hitem) hr.1, hr.2⟩

/-- The items of a record that is written as an array pass if one of them is changed. -/
theorem items_set {stop : Option Json.Halt} : ∀ {fields : List Field} {rs : List Reading} {i : Nat}
    {f : Field} {v v' : Reading}, fields[i]? = some f → rs[i]? = some v →
      (f.value room v = .ok () → f.value room v' = .ok ()) → items room stop fields rs = .ok () →
        items room stop fields (rs.set i v') = .ok ()
  | [], _, _, _, _, _, hf, _, _, _ => by cases hf
  | _ :: _, [], _, _, _, _, _, hv, _, _ => by cases hv
  | f :: fields, r :: rs, 0, _, _, _, hf, hv, hsame, h => by
    obtain rfl := Option.some.inj hf
    obtain rfl := Option.some.inj hv
    rw [items, step_eq_ok_iff] at h
    rw [List.set_cons_zero, items, step_eq_ok_iff]
    exact ⟨hsame h.1, h.2⟩
  | f :: fields, r :: rs, i + 1, _, _, _, hf, hv, hsame, h => by
    rw [items, step_eq_ok_iff] at h
    rw [List.set_cons_succ, items, step_eq_ok_iff]
    exact ⟨h.1, items_set hf hv hsame h.2⟩

/-- Whether the fields of a check are those of a form. -/
structure Fits (fs : List Form.Field) (fields : List Field) : Prop where
  names : fields.map (·.name) = fs.map (·.name)
  checked : ∀ f ∈ fs, ∀ g ∈ fields, g.name = f.name → CheckedBy f.form g.value
  optional : ∀ f ∈ fs, ∀ g ∈ fields, g.name = f.name → g.required → ∀ v, ¬ f.Default v

/-- The check of a field. -/
theorem Fits.exists_field (h : Fits fs fields) {f : Form.Field} (hf : f ∈ fs) :
    ∃ g ∈ fields, g.name = f.name ∧ CheckedBy f.form g.value := by
  have hmem : f.name ∈ fields.map (·.name) :=
    h.names ▸ List.mem_map_of_mem (f := fun f : Form.Field => f.name) hf
  obtain ⟨g, hg, hname⟩ := List.mem_map.mp hmem
  exact ⟨g, hg, hname, h.checked f hf g hg hname⟩

/-- A record passes after a change. -/
theorem record_edited (hfs : (fs.map (·.name)).Nodup) (hfits : Fits fs fields)
    (h : Edits fs (Fitting room) (Passing room) r r')
    (hr : record fields (room + 1) r = .ok ()) : record fields (room + 1) r' = .ok () := by
  have hfields : (fields.map (·.name)).Nodup := hfits.names ▸ hfs
  cases h with
  | permute perm =>
    rw [record_object_iff hfields] at hr ⊢
    obtain ⟨hms, hnodup, hstop, hgiven⟩ := hr
    have hnames : (givenNames fields _).Perm (givenNames fields _) := givenNames_perm perm
    exact ⟨fun m hm => hms m (perm.mem_iff.mpr hm), hnames.nodup_iff.mp hnodup, hstop,
      fun f hf hreq => hnames.mem_iff.mp (hgiven f hf hreq)⟩
  | insert unknown any =>
    rw [← hfits.names] at unknown
    rw [record_object_iff hfields] at hr ⊢
    rw [givenNames_cons_of_not_mem unknown, List.forall_mem_cons]
    obtain ⟨hms, hrest⟩ := hr
    refine ⟨⟨⟨_, rfl, fun f hf hname => ?_, fun _ => skip_of_complete any.1⟩, hms⟩, hrest⟩
    exact absurd (List.mem_map.mpr ⟨f, hf, hname⟩) unknown
  | @drop before after _ f _ mem default =>
    obtain ⟨g, hg, hname, -⟩ := hfits.exists_field mem
    rw [record_object_iff hfields, ← hname, givenNames_middle (List.mem_map_of_mem hg),
      List.forall_mem_append, List.forall_mem_cons] at hr
    obtain ⟨⟨hbefore, -, hafter⟩, hnodup, hstop, hgiven⟩ := hr
    rw [record_object_iff hfields, givenNames_append, List.forall_mem_append]
    refine ⟨⟨hbefore, hafter⟩, (List.nodup_cons.mp (List.nodup_middle.mp hnodup)).2, hstop,
      fun g' hg' hreq => ?_⟩
    have hne : g'.name ≠ g.name :=
      fun heq => hfits.optional f mem g' hg' (heq.trans hname) hreq _ default
    simpa [hne] using hgiven g' hg' hreq
  | member mem same =>
    obtain ⟨g, hg, hname, hchecked⟩ := hfits.exists_field mem
    simp only [record_object_iff hfields, ← hname, givenNames_middle (List.mem_map_of_mem hg),
      List.forall_mem_append, List.forall_mem_cons, memberPasses_field_iff hfields hg] at hr ⊢
    obtain ⟨⟨hbefore, hv, hafter⟩, hrest⟩ := hr
    exact ⟨⟨hbefore, same hchecked hv, hafter⟩, hrest⟩
  | @item _ _ i f _ _ field given same =>
    have hi : (fields.map (·.name))[i]? = some f.name := by
      rw [hfits.names, List.getElem?_map, field]
      rfl
    rw [List.getElem?_map, Option.map_eq_some_iff] at hi
    obtain ⟨g, hg, hname⟩ := hi
    have hchecked := hfits.checked f (List.mem_of_getElem? field) g (List.mem_of_getElem? hg) hname
    rw [record] at hr ⊢
    exact items_set hg given (same hchecked) hr

/-! ### Declarations -/

/-- Whether a member of a declaration passes. -/
def DeclMemberPasses (room : Nat) (m : Option String × Reading) : Prop :=
  ∃ key, m.1 = some key ∧
    if key = "type" then word Decl.tags m.2 = .ok () else whole room m.2 = .ok ()

/-- The members of a declaration pass if each of them does and the tag is given once. -/
theorem declMembers_eq_ok_iff : ∀ {ms : Members} {tagged : Bool},
    declMembers room tagged ms = .ok true ↔ (∀ m ∈ ms, DeclMemberPasses room m) ∧
      ms.countP (·.1 = some "type") = if tagged then 0 else 1
  | [], tagged => by cases tagged <;> simp [declMembers]
  | (none, _) :: _, _ => by simp [declMembers, DeclMemberPasses]
  | (some key, r) :: ms, tagged => by
    rw [declMembers, List.forall_mem_cons]
    by_cases hkey : key = "type"
    · subst hkey
      cases tagged <;> simp [DeclMemberPasses, step_eq_ok_iff, declMembers_eq_ok_iff, and_assoc]
    · simp [DeclMemberPasses, hkey, step_eq_ok_iff, declMembers_eq_ok_iff, and_assoc]

theorem declText_object_iff : declText (room + 1) (.object ms stop) = .ok () ↔
    (∀ m ∈ ms, DeclMemberPasses room m) ∧ ms.countP (·.1 = some "type") = 1 ∧ stop = none := by
  rw [declText, bind_eq_ok_iff]
  simp only [step_eq_ok_iff, stopNeeded_eq_ok_iff, refuse_eq_ok_iff, Bool.not_eq_true',
    Bool.not_eq_false]
  constructor
  · rintro ⟨tagged, h, hstop, rfl⟩
    obtain ⟨hms, hcount⟩ := declMembers_eq_ok_iff.mp h
    exact ⟨hms, hcount, hstop⟩
  · rintro ⟨hms, hcount, hstop⟩
    exact ⟨true, declMembers_eq_ok_iff.mpr ⟨hms, hcount⟩, hstop, rfl⟩

theorem declMemberPasses_tag_iff :
    DeclMemberPasses room (some "type", r) ↔ word Decl.tags r = .ok () := by
  simp [DeclMemberPasses]

theorem declMemberPasses_iff {key : String} (h : key ≠ "type") :
    DeclMemberPasses room (some key, r) ↔ whole room r = .ok () := by
  simp [DeclMemberPasses, h]

/-- The text of a declaration passes after a change. -/
theorem declText_edited {gs : List Form.Field} (hgs : "type" ∉ gs.map (·.name))
    (h : Edits (.required "type" .single :: gs) (Fitting room) (Passing room) r r')
    (hr : declText (room + 1) r = .ok ()) : declText (room + 1) r' = .ok () := by
  have hne : ∀ f ∈ gs, f.name ≠ "type" := fun f hf heq => hgs (heq ▸ List.mem_map_of_mem hf)
  cases h with
  | permute perm =>
    rw [declText_object_iff] at hr ⊢
    obtain ⟨hms, hcount, hstop⟩ := hr
    exact ⟨fun m hm => hms m (perm.mem_iff.mpr hm), perm.countP_eq _ ▸ hcount, hstop⟩
  | insert unknown any =>
    obtain ⟨hkey : _ ≠ "type", -⟩ := not_or.mp (mt List.mem_cons.mpr unknown)
    rw [declText_object_iff] at hr ⊢
    obtain ⟨hms, hcount, hstop⟩ := hr
    refine ⟨List.forall_mem_cons.mpr ⟨?_, hms⟩, ?_, hstop⟩
    · exact (declMemberPasses_iff hkey).mpr (whole_of_complete any.1 any.2)
    · rwa [List.countP_cons_of_neg (by simpa using hkey)]
  | drop mem default =>
    rcases List.mem_cons.mp mem with rfl | mem
    · exact default.elim
    rw [declText_object_iff, List.forall_mem_append, List.forall_mem_cons, List.countP_append,
      List.countP_cons_of_neg (by simpa using hne _ mem)] at hr
    obtain ⟨⟨hbefore, -, hafter⟩, hcount, hstop⟩ := hr
    rw [declText_object_iff, List.forall_mem_append, List.countP_append]
    exact ⟨⟨hbefore, hafter⟩, hcount, hstop⟩
  | @member before after stop f v v' mem same =>
    simp only [declText_object_iff, List.forall_mem_append, List.forall_mem_cons,
      List.countP_append, List.countP_cons] at hr ⊢
    obtain ⟨⟨hbefore, hv, hafter⟩, hrest⟩ := hr
    refine ⟨⟨hbefore, ?_, hafter⟩, hrest⟩
    rcases List.mem_cons.mp mem with rfl | mem
    · rw [Form.Field.required, declMemberPasses_tag_iff] at hv ⊢
      exact same (.single fun _ => word Decl.tags) hv
    · rw [declMemberPasses_iff (hne f mem)] at hv ⊢
      exact same (.whole _) hv
  | @item items stop i f v v' field given same =>
    cases items with
    | nil => cases given
    | cons t items =>
      rw [declText, step_eq_ok_iff, step_eq_ok_iff, wholeItems_eq_ok_iff] at hr
      obtain ⟨ht, hitems, hstop⟩ := hr
      cases i with
      | zero =>
        obtain rfl := Option.some.inj field
        obtain rfl := Option.some.inj given
        rw [List.set_cons_zero, declText, step_eq_ok_iff, step_eq_ok_iff, wholeItems_eq_ok_iff]
        exact ⟨same (.single fun _ => word Decl.tags) ht, hitems, hstop⟩
      | succ i =>
        rw [List.set_cons_succ, declText, step_eq_ok_iff, step_eq_ok_iff, wholeItems_eq_ok_iff]
        exact ⟨ht, forall_mem_set given (same (.whole _)) hitems, hstop⟩

/-- A declaration passes after a change, if it is decoded as before. -/
theorem decl_edited (hfs : Form.decl.fieldsIn r = some fs)
    (h : Edits fs (Fitting room) (Passing room) r r') (hkept : Kept .decl r r')
    (hr : decl (room + 1) r = .ok ()) : decl (room + 1) r' = .ok () := by
  obtain ⟨tag, kind, gs, -, hgs, rfl⟩ := Form.exists_variant (by simp [Form.variants]) hfs
  have hnot : "type" ∉ gs.map (·.name) := (List.nodup_cons.mp (Form.nodup_variant hgs)).1
  rw [decl, step_eq_ok_iff, refuse_eq_ok_iff] at hr ⊢
  obtain ⟨htext, hsome⟩ := hr
  cases hd : Decl.ofReading? (room + 1) r with
  | none => simp [hd] at hsome
  | some d => exact ⟨declText_edited hnot h htext, by simp [hkept.reads (.decl _) hd]⟩

/-! ### Any change -/

attribute [simp] CheckedBy.single CheckedBy.list CheckedBy.position CheckedBy.decl CheckedBy.root
  CheckedBy.sourceFile

/-- What passes a check passes it after a change. -/
theorem passing_of_edits {F : Form} (hfs : F.fieldsIn r = some fs) (hkept : Kept F r r')
    (h : Edits fs (Fitting room) (Passing room) r r') : Passing (room + 1) F r r' := by
  have hnodup := Form.nodup_fieldsIn hfs
  intro check hcheck hr
  cases hcheck with
  | whole => exact whole_edited h hr
  | single | list => cases hfs
  | decl => exact decl_edited hfs h hkept hr
  | position | root | sourceFile | program =>
    obtain rfl := Option.some.inj hfs
    refine record_edited hnodup ⟨rfl, ?_, ?_⟩ h hr <;>
      simp [Form.fields, Form.nodeFields, Form.Field.required]

/-- What passes a check passes it when it is respelled. -/
theorem passing_of_respells {F : Form} (h : Respells room F r r') : Passing room F r r' := by
  induction room generalizing F r r' with
  | zero => cases h
  | succ room ih =>
    -- taken first, since a declaration also has to be decoded as a whole
    have hkept := h.kept
    cases h with
    | permute fields perm => exact passing_of_edits fields hkept (.permute perm)
    | insert fields unknown complete fits =>
      exact passing_of_edits fields hkept (.insert unknown ⟨complete, fits⟩)
    | drop fields mem default => exact passing_of_edits fields hkept (.drop mem default)
    | member fields mem inner => exact passing_of_edits fields hkept (.member mem (ih inner))
    | item fields field given inner =>
      exact passing_of_edits fields hkept (.item field given (ih inner))
    | element given inner => exact passing_list given (ih inner)

end

end DecodeError

/-! ### Programs -/

namespace Program

open Json (Document)

theorem ofReading_eq_ok_iff {r : Reading} {p : Program} : ofReading r = .ok p ↔
    DecodeError.program maxDepth r = .ok () ∧ Program.ofReading? maxDepth r = some p := by
  rw [ofReading, step_eq_ok_iff]
  refine and_congr_right fun _ => ?_
  cases Program.ofReading? maxDepth r <;> simp

/-- A value that is decoded to a program is decoded to the same program after any number of changes
of its spelling, and so is every text that gives the changed value. -/
theorem ofReading_respelled {r r' : Reading} {p : Program} (h : ofReading r = .ok p)
    (hr : Relation.ReflTransGen (Respells maxDepth .program) r r') : ofReading r' = .ok p ∧
      ∀ s : String, Document.ofText s.toList = ⟨r', false⟩ → ofText s = .ok p := by
  have hsame : ofReading r' = .ok p := by
    induction hr with
    | refl => exact h
    | tail _ hstep ih =>
      rw [ofReading_eq_ok_iff] at ih ⊢
      exact ⟨DecodeError.passing_of_respells hstep .program ih.1,
        hstep.kept.reads (.program maxDepth) ih.2⟩
  refine ⟨hsame, fun s hs => ?_⟩
  rw [ofText, hs]
  exact bind_eq_ok_iff.mpr ⟨p, hsame, rfl⟩

/-- A file that imports another. -/
def importing : Program :=
  ⟨[⟨"main.kiln", ⟨⟨0⟩, .start⟩, [.use ⟨⟨⟨1⟩, .start⟩, "lib.kiln", []⟩]⟩], 0⟩

/-- The form of a program with one file and one declaration. -/
def aroundDecl (d : Json) : Json :=
  .object [
    ("files", .array [
      .object [
        ("path", .string "main.kiln"),
        ("root", .object [
          ("id", .natural 0), ("pos", Position.start.toJson), ("decls", .array [d])])]]),
    ("entry", .natural 0)]

/-- The members of the import without its directives. -/
def importMembers (pos : Json) : List (String × Json) :=
  [("type", .string "use"), ("id", .natural 1), ("pos", pos), ("path", .string "lib.kiln")]

/-- A position that says nothing of the offset. -/
def startPlace : Json := .object [("line", .natural 1), ("column", .natural 1)]

/-- The import with its tag at the end and a member too many; neither its offset nor its directives
are written. -/
def respelledImport : Json :=
  .object (("note", .array [.null]) :: (importMembers startPlace).reverse)

/-- A declaration is respelled inside of its program. -/
theorem respells_aroundDecl {d d' : Json} (h : Respells 122 .decl d.toReading d'.toReading) :
    Respells maxDepth .program (aroundDecl d).toReading (aroundDecl d').toReading := by
  have hdecls : Respells 123 (.list .decl) (Json.array [d]).toReading (Json.array [d']).toReading :=
    @Respells.element 122 .decl [d.toReading] none 0 _ _ rfl h
  have hroot := @Respells.member 123 .root
    [(some "id", (Json.natural 0).toReading), (some "pos", Position.start.toJson.toReading)] []
    none _ (.required "decls" (.list .decl)) _ _ rfl (by simp [Form.fields]) hdecls
  have hfile := @Respells.member 124 .sourceFile
    [(some "path", (Json.string "main.kiln").toReading)] []
    none _ (.required "root" .root) _ _ rfl (by simp [Form.fields]) hroot
  have hfiles := @Respells.element 125 .sourceFile [_] none 0 _ _ rfl hfile
  exact @Respells.member 126 .program [] [(some "entry", (Json.natural 0).toReading)]
    none _ (.required "files" (.list .sourceFile)) _ _ rfl (by simp [Form.fields]) hfiles

/-- The import is respelled in four steps. -/
theorem respells_importing : Relation.ReflTransGen (Respells maxDepth .program)
    importing.toJson.toReading (aroundDecl respelledImport).toReading := by
  have hplace : Respells 121 .position Position.start.toJson.toReading startPlace.toReading :=
    @Respells.drop 120 .position
      [(some "line", .number (.natural 1)), (some "column", .number (.natural 1))] [] none _
      ⟨"offset", .single, (· = .number (.natural 0))⟩ _ rfl (by simp [Form.fields]) rfl
  have hdirectives : Respells 122 .decl
      (Json.object (importMembers Position.start.toJson ++ [("directives", .array [])])).toReading
      (Json.object (importMembers Position.start.toJson)).toReading :=
    @Respells.drop 121 .decl (Json.toMembers (importMembers Position.start.toJson)) [] none _
      Form.directivesField _ rfl (by simp) rfl
  have hpos : Respells 122 .decl (Json.object (importMembers Position.start.toJson)).toReading
      (Json.object (importMembers startPlace)).toReading :=
    @Respells.member 121 .decl (Json.toMembers [("type", .string "use"), ("id", .natural 1)])
      (Json.toMembers [("path", .string "lib.kiln")]) none _ (.required "pos" .position) _ _ rfl
      (by simp [Form.nodeFields]) hplace
  have hnote : Respells 122 .decl (Json.object (importMembers startPlace)).toReading
      (Json.object (("note", .array [.null]) :: importMembers startPlace)).toReading :=
    @Respells.insert 121 .decl (Json.toMembers (importMembers startPlace)) none _ "note" _ rfl
      (by decide) ⟨rfl, trivial, trivial⟩ (by decide)
  have hperm : Respells 122 .decl
      (Json.object (("note", .array [.null]) :: importMembers startPlace)).toReading
      respelledImport.toReading :=
    .permute rfl (.cons _ (List.reverse_perm _).symm)
  have hdecl : Relation.ReflTransGen
      (fun d d' : Json => Respells 122 .decl d.toReading d'.toReading) _ respelledImport :=
    .head hdirectives (.head hpos (.head hnote (.single hperm)))
  exact hdecl.lift (fun d => (aroundDecl d).toReading) fun _ _ => respells_aroundDecl

theorem importing_respelled :
    ofReading importing.toJson.toReading = .ok importing ∧
    Relation.ReflTransGen (Respells maxDepth .program) importing.toJson.toReading
      (aroundDecl respelledImport).toReading ∧
    ofReading (aroundDecl respelledImport).toReading = .ok importing ∧
    ofText (aroundDecl respelledImport).compact = .ok importing := by
  have hdepth : importing.toJson.depth ≤ maxDepth := by decide +kernel
  have hread : ofReading importing.toJson.toReading = .ok importing :=
    ofReading_eq_ok_iff.mpr
      ⟨DecodeError.passes_program maxDepth importing hdepth, restores maxDepth importing hdepth⟩
  obtain ⟨hsame, htext⟩ := ofReading_respelled hread respells_importing
  have hfits : (aroundDecl respelledImport).Fits := by
    simp [aroundDecl, respelledImport, importMembers, startPlace, Position.toJson, Position.start,
      Json.Fits, Json.FitsAll, Json.FitsMembers, UInt64.size]
  exact ⟨hread, respells_importing, hsame, htext _ (Json.ofText_compact hfits)⟩

end Program

end Sema
