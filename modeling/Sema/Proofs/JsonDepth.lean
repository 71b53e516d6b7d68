import Sema.Program.Accept
import Sema.Proofs.Outcome

/-!
How deep JSON values and readings go. What is read as a whole goes no deeper than there is room, and
a value that goes no deeper is read as a whole.
-/

namespace Sema

namespace Json

mutual

/-- How many arrays and objects of a value are open at once at most. -/
def depth : Json → Nat
  | .array vs => depthAll vs + 1
  | .object ms => depthMembers ms + 1
  | _ => 0

def depthAll : List Json → Nat
  | [] => 0
  | v :: vs => max (depth v) (depthAll vs)

def depthMembers : List (String × Json) → Nat
  | [] => 0
  | m :: ms => max (depth m.2) (depthMembers ms)

end

theorem depthAll_le {vs : List Json} {n : Nat} : depthAll vs ≤ n ↔ ∀ v ∈ vs, v.depth ≤ n := by
  induction vs with
  | nil => simp [depthAll]
  | cons v vs ih => rw [depthAll, Nat.max_le, ih, List.forall_mem_cons]

@[simp] theorem depth_bool (b : Bool) : (Json.bool b).depth = 0 := rfl

@[simp] theorem depth_natural (n : Nat) : (natural n).depth = 0 := rfl

@[simp] theorem depth_string (s : String) : (string s).depth = 0 := rfl

@[simp] theorem depth_object (ms : List (String × Json)) :
    (object ms).depth = depthMembers ms + 1 := rfl

theorem depth_array_le {vs : List Json} {n : Nat} :
    (array vs).depth ≤ n + 1 ↔ ∀ v ∈ vs, v.depth ≤ n := by
  rw [depth, Nat.add_le_add_iff_right, depthAll_le]

theorem toReadings_eq_map (vs : List Json) : toReadings vs = vs.map toReading := by
  induction vs with
  | nil => rfl
  | cons v vs ih => rw [toReadings, ih, List.map_cons]

theorem toMembers_eq_map (ms : List (String × Json)) :
    toMembers ms = ms.map fun m => (some m.1, m.2.toReading) := by
  induction ms with
  | nil => rfl
  | cons m ms ih => rw [toMembers, ih, List.map_cons]

namespace Reading

mutual

/-- How many arrays and objects of a reading are open at once at most. -/
def depth : Reading → Nat
  | .array items _ => depthAll items + 1
  | .object members _ => depthMembers members + 1
  | _ => 0

def depthAll : List Reading → Nat
  | [] => 0
  | r :: rs => max (depth r) (depthAll rs)

def depthMembers : List (Option String × Reading) → Nat
  | [] => 0
  | m :: ms => max (depth m.2) (depthMembers ms)

end

theorem depthAll_le {rs : List Reading} {n : Nat} : depthAll rs ≤ n ↔ ∀ r ∈ rs, r.depth ≤ n := by
  induction rs with
  | nil => simp [depthAll]
  | cons r rs ih => rw [depthAll, Nat.max_le, ih, List.forall_mem_cons]

theorem depthMembers_le {ms : Members} {n : Nat} : depthMembers ms ≤ n ↔
    ∀ m ∈ ms, m.2.depth ≤ n := by
  induction ms with
  | nil => simp [depthMembers]
  | cons m ms ih => rw [depthMembers, Nat.max_le, ih, List.forall_mem_cons]

end Reading

end Json

namespace DecodeError

open Json (Reading)

mutual

/-- What is read as a whole fits in the room that there is. -/
theorem depth_le_of_whole : ∀ (r : Reading) {room : Nat}, whole room r = .ok () → r.depth ≤ room
  | .null, _, _ => Nat.zero_le _
  | .bool _, _, _ => Nat.zero_le _
  | .number _, _, _ => Nat.zero_le _
  | .string _, _, _ => Nat.zero_le _
  | .broken _, _, _ => Nat.zero_le _
  | .array items stop, 0, h => by cases h
  | .array items stop, room + 1, h => by
    rw [whole, bind_eq_ok_iff] at h
    obtain ⟨_, hitems, -⟩ := h
    exact Nat.succ_le_succ (depthAll_le_of_whole items hitems)
  | .object members stop, 0, h => by cases h
  | .object members stop, room + 1, h => by
    rw [whole, bind_eq_ok_iff] at h
    obtain ⟨_, hmembers, -⟩ := h
    exact Nat.succ_le_succ (depthMembers_le_of_whole members hmembers)

theorem depthAll_le_of_whole : ∀ (rs : List Reading) {room : Nat},
    wholeItems room rs = .ok () → Reading.depthAll rs ≤ room
  | [], _, _ => Nat.zero_le _
  | r :: rs, room, h => by
    rw [wholeItems, bind_eq_ok_iff] at h
    obtain ⟨_, hr, hrs⟩ := h
    exact Nat.max_le.mpr ⟨depth_le_of_whole r hr, depthAll_le_of_whole rs hrs⟩

theorem depthMembers_le_of_whole : ∀ (ms : Json.Members) {room : Nat},
    wholeMembers room ms = .ok () → Reading.depthMembers ms ≤ room
  | [], _, _ => Nat.zero_le _
  | (none, r) :: ms, room, h => by cases h
  | (some _, r) :: ms, room, h => by
    rw [wholeMembers, bind_eq_ok_iff] at h
    obtain ⟨_, hr, hms⟩ := h
    exact Nat.max_le.mpr ⟨depth_le_of_whole r hr, depthMembers_le_of_whole ms hms⟩

end

mutual

/-- A value for which there is room is read as a whole. -/
theorem whole_toReading : ∀ (v : Json) {room : Nat}, v.depth ≤ room →
    whole room v.toReading = .ok ()
  | .null, room, _ => by cases room <;> rfl
  | .bool _, room, _ => by cases room <;> rfl
  | .natural _, room, _ => by cases room <;> rfl
  | .string _, room, _ => by cases room <;> rfl
  | .array vs, room + 1, h => by
    rw [Json.toReading, whole, wholeItems_toReadings vs (Nat.le_of_succ_le_succ h)]
    rfl
  | .object ms, room + 1, h => by
    rw [Json.toReading, whole, wholeMembers_toMembers ms (Nat.le_of_succ_le_succ h)]
    rfl

theorem wholeItems_toReadings : ∀ (vs : List Json) {room : Nat}, Json.depthAll vs ≤ room →
    wholeItems room (Json.toReadings vs) = .ok ()
  | [], _, _ => rfl
  | v :: vs, room, h => by
    obtain ⟨hv, hvs⟩ := Nat.max_le.mp h
    rw [Json.toReadings, wholeItems, whole_toReading v hv, wholeItems_toReadings vs hvs]
    rfl

theorem wholeMembers_toMembers : ∀ (ms : List (String × Json)) {room : Nat},
    Json.depthMembers ms ≤ room → wholeMembers room (Json.toMembers ms) = .ok ()
  | [], _, _ => rfl
  | (k, v) :: ms, room, h => by
    obtain ⟨hv, hms⟩ := Nat.max_le.mp h
    rw [Json.toMembers, wholeMembers, whole_toReading v hv, wholeMembers_toMembers ms hms]
    rfl

end

end DecodeError

end Sema
