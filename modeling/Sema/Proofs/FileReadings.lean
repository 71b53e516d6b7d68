import Sema.Proofs.Acceptance
import Sema.Proofs.Coverage

/-!
The signatures of a program file by file. What is read in a file depends on the files before it in
one way only: a shared definition repeats a name when a shared function before it has that name. So a
file is read alike behind whatever files whose shared functions have the same names.
-/

namespace Sema

/-! ### Functions and their place -/

namespace Function

/-- A function as it is when its file has another place. -/
def inFile (i : Nat) (f : Function) : Function := { f with file := i }

/-- What other files see of functions: the names and the types of those that are shared. -/
def interface (fs : List Function) : List (String × Signature Ty) :=
  (fs.filter fun f => f.proto.visibility = .shared).map fun f => (f.name, f.signature)

theorem interface_flatMap {α : Type} (l : List α) (g : α → List Function) :
    interface (l.flatMap g) = l.flatMap fun x => interface (g x) := by
  simp [interface, List.filter_flatMap, List.map_flatMap]

theorem interface_map_inFile (i : Nat) (fs : List Function) :
    interface (fs.map (inFile i)) = interface fs := by
  rw [interface, interface, List.filter_map, List.map_map]
  rfl

/-- What a shared name stands for can be told from the interface. -/
theorem map_signature_filter_isShared (name : String) (fs : List Function) :
    (fs.filter (isShared name)).map signature =
      ((interface fs).filter (·.1 = name)).map Prod.snd := by
  rw [interface, List.filter_map, List.map_map, List.filter_filter]
  refine congrArg (List.map signature) (List.filter_congr fun f _ => ?_)
  rw [isShared, Bool.and_comm]
  rfl

/-- Files see the same signatures when their own functions are the same by name and so are the
functions that are shared. -/
theorem env_congr {fs gs : List Function} {i j : Nat}
    (hown : ∀ name, (fs.filter (isOwn i name)).map signature =
      (gs.filter (isOwn j name)).map signature)
    (hshared : ∀ name, (fs.filter (isShared name)).map signature =
      (gs.filter (isShared name)).map signature) : env fs i = env gs j := by
  have hmap : ∀ (k : Nat) (name : String) (hs : List Function), env hs k name =
      (((hs.filter (isOwn k name)).map signature).getLast?).or
        (((hs.filter (isShared name)).map signature).getLast?) := by
    intro k name hs
    rw [env, visible, List.getLast?_map, List.getLast?_map]
    cases (hs.filter (isOwn k name)).getLast? <;> rfl
  funext name
  rw [hmap, hmap, hown, hshared]

/-- A definition of another file repeats the name of a function exactly when both are shared. -/
theorem any_clashes_defined {fs : List Function} {i : Nat} (h : ∀ f ∈ fs, f.file ≠ i)
    (p : Prototype) (n : NodeId) : fs.any (·.Clashes (.defined p n i)) =
      (p.visibility = .shared && (interface fs).any (·.1 = p.name)) := by
  rw [Bool.eq_iff_iff]
  simp only [interface, List.any_eq_true, List.any_map, Bool.and_eq_true, decide_eq_true_eq,
    List.mem_filter, Function.comp_apply]
  simp only [Clashes, defined]
  constructor
  · rintro ⟨f, hf, -, hname, hfile | ⟨hv, hp⟩⟩
    · exact absurd hfile (h f hf)
    · exact ⟨hp, f, ⟨hf, hv⟩, hname⟩
  · rintro ⟨hp, f, ⟨hf, hv⟩, hname⟩
    exact ⟨f, hf, rfl, hname, .inr ⟨hv, hp⟩⟩

/-- Moved together, the functions of a file and a definition of it clash as before. -/
theorem any_clashes_map_inFile {fs : List Function} {i : Nat} (h : ∀ f ∈ fs, f.file = i) (j : Nat)
    (p : Prototype) (n : NodeId) : (fs.map (inFile j)).any (·.Clashes (.defined p n j)) =
      fs.any (·.Clashes (.defined p n i)) := by
  rw [List.any_map, Bool.eq_iff_iff, List.any_eq_true, List.any_eq_true]
  refine exists_congr fun f => and_congr_right fun hf => ?_
  rw [Function.comp_apply, decide_eq_true_iff, decide_eq_true_iff]
  simp [Clashes, inFile, defined, h f hf]

end Function

theorem Decl.map_inFile_functions (i j : Nat) (d : Decl) :
    (d.functions i).map (Function.inFile j) = d.functions j := by
  cases d <;> simp [functions, Function.inFile, Function.defined, Function.declared]

/-- What other files see of a file. -/
def SourceFile.interface (f : SourceFile) : List (String × Signature Ty) :=
  Function.interface (f.decls.flatMap (Decl.functions 0))

/-! ### Readings that are alike -/

theorem flatMap_eq_of_forall₂ {α β γ : Type} {f : α → List γ} {g : β → List γ} :
    ∀ {l : List α} {m : List β}, l.Forall₂ (fun x y => f x = g y) m → l.flatMap f = m.flatMap g
  | _, _, .nil => rfl
  | _, _, .cons h hl => by rw [List.flatMap_cons, List.flatMap_cons, h, flatMap_eq_of_forall₂ hl]

namespace Reading

variable {r r' : Reading}

theorem file_of_mem_functions {f : Function} (h : f ∈ r.functions) : f.file = r.context.index := by
  have hd := List.mem_of_mem_filter h
  rw [← Decl.map_inFile_functions r.context.index] at hd
  obtain ⟨g, -, rfl⟩ := List.mem_map.mp hd
  rfl

/-- Whether two readings are of one declaration that repeats a name in both or in none. A root export
that can be honored meets one before it in both or in none. -/
structure Alike (r r' : Reading) : Prop where
  decl : r'.decl = r.decl
  path : r'.context.path = r.context.path
  isEntry : r'.context.isEntry = r.context.isEntry
  honored : r.context.isEntry → r'.honored = r.honored
  repeats : ∀ d, r.decl = .fnDef d → r'.repeats (.defined d.proto d.node.id r'.context.index) =
    r.repeats (.defined d.proto d.node.id r.context.index)

namespace Alike

theorem symm (h : r.Alike r') : r'.Alike r where
  decl := h.decl.symm
  path := h.path.symm
  isEntry := h.isEntry.symm
  honored := fun he => (h.honored (h.isEntry ▸ he)).symm
  repeats := fun d hd => (h.repeats d (h.decl ▸ hd)).symm

theorem redefined_eq (h : r.Alike r') : r'.redefined = r.redefined := by
  have hrep := h.repeats
  unfold redefined
  rw [h.decl]
  cases hd : r.decl with
  | fnDef d => simp only [hrep d hd]
  | _ => rfl

theorem honors_eq (h : r.Alike r') : r'.honors = r.honors := by
  have hhon := h.honored
  unfold honors
  rw [h.decl, h.isEntry]
  cases hd : r.decl with
  | rootExport e =>
    cases he : r.context.isEntry with
    | true => simp only [hhon he]
    | false => rfl
  | _ => rfl

theorem findings_eq (h : r.Alike r') : r'.findings = r.findings := by
  have hhon := h.honored
  have hrep := h.repeats
  unfold findings
  rw [h.decl, h.path, h.isEntry]
  cases hd : r.decl with
  | fnDef d => simp only [hrep d hd]
  | rootExport e =>
    cases he : r.context.isEntry with
    | true => simp only [hhon he]
    | false => rfl
  | _ => rfl

/-- The functions that are added are the same but for their place. -/
theorem functions_eq (h : r.Alike r') :
    r'.functions = r.functions.map (Function.inFile r'.context.index) := by
  cases hd : r.decl with
  | fnDef d =>
    rw [functions_fnDef hd, functions_fnDef (h.decl.trans hd), h.repeats d hd]
    split <;> rfl
  | externalBlock b =>
    rw [functions_externalBlock hd, functions_externalBlock (h.decl.trans hd), List.map_map]
    rfl
  | rootExport e => simp [functions, h.decl, hd, Decl.functions]
  | use u => simp [functions, h.decl, hd, Decl.functions]

end Alike

end Reading

/-- The declarations of a file are read alike where they repeat the same names of what is known, and
where a root export is honored before in both or in none. -/
theorem readingsFrom_alike {c c' : FileContext} (hpath : c'.path = c.path)
    (hentry : c'.isEntry = c.isEntry) : ∀ (ds : List Decl) {known known' : List Function}
    {honored honored' : Bool}, (c.isEntry → honored' = honored) →
    (∀ d, .fnDef d ∈ ds → known'.any (·.Clashes (.defined d.proto d.node.id c'.index)) =
      known.any (·.Clashes (.defined d.proto d.node.id c.index))) →
    (readingsFrom known honored (ds.map (c, ·))).Forall₂ Reading.Alike
      (readingsFrom known' honored' (ds.map (c', ·)))
  | [], _, _, _, _, _, _ => .nil
  | d :: ds, known, known', honored, honored', hhon, hknown => by
    have hr : Reading.Alike ⟨known, honored, c, d⟩ ⟨known', honored', c', d⟩ :=
      ⟨rfl, hpath, hentry, hhon, by
        rintro e rfl
        exact hknown e (List.mem_cons_self ..)⟩
    have hhonors := hr.honors_eq
    have hfunctions := hr.functions_eq
    refine .cons hr (readingsFrom_alike hpath hentry ds (fun he => ?_) fun e he => ?_)
    · rw [hhonors, hhon he]
    · rw [List.any_append, List.any_append, hknown e (List.mem_cons_of_mem _ he), hfunctions,
        Function.any_clashes_map_inFile fun f hf => Reading.file_of_mem_functions hf]

/-! ### Files of a program -/

namespace Program

variable {p : Program} {i : Nat}

/-- The files of a program, each with whether it is the entry. -/
def marked (p : Program) : List (SourceFile × Bool) :=
  p.files.mapIdx fun i f => (f, i == p.entry.toNat)

/-- The readings of the files before an index. -/
def readingsTo (p : Program) (i : Nat) : List Reading :=
  readingsFrom [] false (declsFrom p.entry.toNat 0 (p.files.take i))

/-- The readings of one file, given by its index. -/
def readingsIn (p : Program) (i : Nat) : List Reading :=
  p.marked[i]?.toList.flatMap fun x =>
    readingsFrom ((p.readingsTo i).flatMap Reading.functions)
      ((p.readingsTo i).any (·.honors.isSome)) (x.1.decls.map (⟨i, x.1.path, x.2⟩, ·))

theorem getElem?_marked (p : Program) (i : Nat) :
    p.marked[i]? = p.files[i]?.map fun f => (f, i == p.entry.toNat) := by
  rw [marked, List.getElem?_mapIdx]

theorem getElem?_marked_of_files {f : SourceFile} (hf : p.files[i]? = some f) :
    p.marked[i]? = some (f, i == p.entry.toNat) := by
  rw [getElem?_marked, hf, Option.map_some]

theorem length_marked (p : Program) : p.marked.length = p.files.length := List.length_mapIdx

theorem readingsTo_succ (p : Program) (i : Nat) :
    p.readingsTo (i + 1) = p.readingsTo i ++ p.readingsIn i := by
  unfold readingsTo readingsIn
  rw [getElem?_marked, List.take_add_one]
  cases hf : p.files[i]? with
  | none => simp
  | some f =>
    have hlt := (List.getElem?_eq_some_iff.mp hf).1
    have hlen : (p.files.take i).length = i := by
      rw [List.length_take]
      omega
    simp only [Option.toList_some, Option.map_some, List.flatMap_singleton, declsFrom_append, hlen,
      Nat.zero_add, declsFrom, List.append_nil, readingsFrom_append]
    rfl

theorem readingsTo_eq (p : Program) (i : Nat) :
    p.readingsTo i = (List.range i).flatMap p.readingsIn := by
  induction i with
  | zero => rfl
  | succ i ih =>
    rw [readingsTo_succ, ih, List.range_succ, List.flatMap_append, List.flatMap_singleton]

/-- A program is read file by file. -/
theorem readings_eq (p : Program) :
    p.readings = (List.range p.files.length).flatMap p.readingsIn := by
  rw [← readingsTo_eq, readingsTo, List.take_length]
  rfl

theorem readingsIn_eq {x : SourceFile × Bool} (hx : p.marked[i]? = some x) :
    p.readingsIn i = readingsFrom ((p.readingsTo i).flatMap Reading.functions)
      ((p.readingsTo i).any (·.honors.isSome)) (x.1.decls.map (⟨i, x.1.path, x.2⟩, ·)) := by
  rw [readingsIn, hx, Option.toList_some, List.flatMap_singleton]

/-- The readings of a file are those of its declarations. -/
theorem map_readingsIn {x : SourceFile × Bool} (hx : p.marked[i]? = some x) :
    (p.readingsIn i).map (fun r => (r.context, r.decl)) =
      x.1.decls.map (⟨i, x.1.path, x.2⟩, ·) := by
  rw [readingsIn_eq hx, map_readingsFrom]

theorem mem_readingsIn {r : Reading} (h : r ∈ p.readingsIn i) : ∃ x, p.marked[i]? = some x ∧
    r.context = ⟨i, x.1.path, x.2⟩ ∧ r.decl ∈ x.1.decls := by
  obtain ⟨x, hx, -⟩ := List.mem_flatMap.mp h
  rw [Option.mem_toList] at hx
  have hmem := List.mem_map_of_mem (f := fun r => (r.context, r.decl)) h
  rw [map_readingsIn hx] at hmem
  obtain ⟨d, hd, heq⟩ := List.mem_map.mp hmem
  obtain ⟨hc, rfl⟩ := Prod.mk.inj heq
  exact ⟨x, hx, hc.symm, hd⟩

theorem index_of_mem_readingsIn {r : Reading} (h : r ∈ p.readingsIn i) : r.context.index = i := by
  obtain ⟨x, -, hc, -⟩ := mem_readingsIn h
  rw [hc]

theorem mem_readings_iff {r : Reading} : r ∈ p.readings ↔ ∃ i, r ∈ p.readingsIn i := by
  rw [readings_eq, List.mem_flatMap]
  constructor
  · rintro ⟨i, -, hr⟩
    exact ⟨i, hr⟩
  · rintro ⟨i, hr⟩
    obtain ⟨x, hx, -⟩ := mem_readingsIn hr
    have hlt := (List.getElem?_eq_some_iff.mp hx).1
    rw [length_marked] at hlt
    exact ⟨i, List.mem_range.mpr hlt, hr⟩

/-! ### Functions by file -/

/-- The functions of one file, without the definitions that repeat a name. -/
def functionsIn (p : Program) (i : Nat) : List Function :=
  (p.readingsIn i).flatMap Reading.functions

theorem file_of_mem_functionsIn {f : Function} (h : f ∈ p.functionsIn i) : f.file = i := by
  obtain ⟨r, hr, hf⟩ := List.mem_flatMap.mp h
  rw [Reading.file_of_mem_functions hf, index_of_mem_readingsIn hr]

theorem functions_readingsTo (p : Program) (i : Nat) :
    (p.readingsTo i).flatMap Reading.functions = (List.range i).flatMap p.functionsIn := by
  rw [readingsTo_eq, List.flatMap_assoc]
  rfl

/-- A definition repeats a name of the files before its own only if both are shared. -/
theorem any_clashes_readingsTo (p : Program) (i : Nat) (proto : Prototype) (n : NodeId) :
    ((p.readingsTo i).flatMap Reading.functions).any (·.Clashes (.defined proto n i)) =
      (proto.visibility = .shared && ((List.range i).flatMap fun j =>
        Function.interface (p.functionsIn j)).any (·.1 = proto.name)) := by
  rw [functions_readingsTo, Function.any_clashes_defined, Function.interface_flatMap]
  intro f hf
  obtain ⟨j, hj, hf⟩ := List.mem_flatMap.mp hf
  rw [file_of_mem_functionsIn hf]
  exact Nat.ne_of_lt (List.mem_range.mp hj)

theorem functions_eq_flatMap (p : Program) :
    p.functions = (List.range p.files.length).flatMap p.functionsIn := by
  rw [functions, readings_eq, List.flatMap_assoc]
  rfl

theorem functionsIn_eq_nil (h : p.files.length ≤ i) : p.functionsIn i = [] := by
  rw [functionsIn, readingsIn, List.getElem?_eq_none (by rwa [length_marked])]
  rfl

/-- Where files are read alike, their functions are the same but for their place. -/
theorem functionsIn_of_alike {q : Program} {j : Nat}
    (h : (p.readingsIn i).Forall₂ Reading.Alike (q.readingsIn j)) :
    q.functionsIn j = (p.functionsIn i).map (Function.inFile j) := by
  -- both sides are compared as functions of one place, and then moved to `j`
  have hzero : (q.functionsIn j).map (Function.inFile 0) =
      (p.functionsIn i).map (Function.inFile 0) := by
    rw [functionsIn, functionsIn, List.map_flatMap, List.map_flatMap]
    refine (flatMap_eq_of_forall₂ (h.imp fun r r' hr => ?_)).symm
    rw [hr.functions_eq, List.map_map]
    rfl
  have hmove : ∀ fs : List Function, (fs.map (Function.inFile 0)).map (Function.inFile j) =
      fs.map (Function.inFile j) := fun fs => List.map_map
  rw [← hmove, ← hzero, hmove]
  refine (List.map_id' _).symm.trans (List.map_congr_left fun f hf => ?_)
  rw [Function.inFile, ← file_of_mem_functionsIn hf]

/-- What is collected from all indices comes from one of them if there is nothing at others. -/
theorem flatMap_range_eq {α : Type} {n i : Nat} {g : Nat → List α} (h : ∀ j, j ≠ i → g j = []) :
    (List.range n).flatMap g = if i < n then g i else [] := by
  induction n with
  | zero => rfl
  | succ n ih =>
    rw [List.range_succ, List.flatMap_append, List.flatMap_singleton, ih]
    rcases Nat.lt_trichotomy n i with hlt | rfl | hlt
    · rw [if_neg (by omega), if_neg (by omega), h n (by omega), List.append_nil]
    · rw [if_neg (by omega), if_pos (by omega), List.nil_append]
    · rw [if_pos hlt, if_pos (by omega), h n (by omega), List.append_nil]

/-- The functions that a test of their file leaves are those of the file. -/
theorem filter_functions {q : Function → Bool} (hq : ∀ f, q f → f.file = i) :
    p.functions.filter q = (p.functionsIn i).filter q := by
  rw [functions_eq_flatMap, List.filter_flatMap, flatMap_range_eq (i := i) fun j hj => ?_]
  · split
    · rfl
    · next hle => rw [functionsIn_eq_nil (Nat.le_of_not_lt hle), List.filter_nil]
  · rw [List.filter_eq_nil_iff]
    intro f hf hqf
    exact hj ((file_of_mem_functionsIn hf).symm.trans (hq f hqf))

/-- Where the functions of files are the same but for their place, and so are the functions that are
shared, the files see the same signatures. -/
theorem env_eq_of_functionsIn {q : Program} {j : Nat}
    (hown : q.functionsIn j = (p.functionsIn i).map (Function.inFile j))
    (hshared : ∀ name, (q.functions.filter (Function.isShared name)).map Function.signature =
      (p.functions.filter (Function.isShared name)).map Function.signature) :
    Function.env q.functions j = Function.env p.functions i := by
  have hfile : ∀ (k : Nat) (name : String) (f : Function), Function.isOwn k name f → f.file = k := by
    intro k name f hf
    simp only [Function.isOwn, Bool.and_eq_true, decide_eq_true_eq] at hf
    exact hf.1
  refine Function.env_congr (fun name => ?_) hshared
  rw [filter_functions (hfile j name), filter_functions (hfile i name), hown, List.filter_map,
    List.map_map]
  have hsame : (p.functionsIn i).filter (Function.isOwn j name ∘ Function.inFile j) =
      (p.functionsIn i).filter (Function.isOwn i name) := by
    refine List.filter_congr fun f hf => ?_
    rw [Function.comp_apply, Function.isOwn, Function.isOwn, file_of_mem_functionsIn hf]
    simp only [Function.inFile, decide_true]
    rfl
  rw [hsame]
  rfl

/-! ### The entry file -/

section

variable {x : SourceFile × Bool} (hx : p.marked[i]? = some x)
include hx

theorem getElem?_files : p.files[i]? = some x.1 := by
  rw [getElem?_marked, Option.map_eq_some_iff] at hx
  obtain ⟨f, hf, rfl⟩ := hx
  exact hf

theorem isEntry_iff : x.2 ↔ i = p.entry.toNat := by
  rw [getElem?_marked, Option.map_eq_some_iff] at hx
  obtain ⟨f, -, rfl⟩ := hx
  exact beq_iff_eq

end

/-- A root export is honored in the entry file only. -/
theorem honors_eq_nil (hi : i ≠ p.entry.toNat) :
    (p.readingsIn i).flatMap (·.honors.toList) = [] := by
  rw [List.flatMap_eq_nil_iff]
  intro r hr
  obtain ⟨x, hx, hc, -⟩ := mem_readingsIn hr
  have hfalse : r.context.isEntry = false := by
    rw [hc]
    exact Bool.eq_false_iff.mpr (mt (isEntry_iff hx).mp hi)
  unfold Reading.honors
  rw [hfalse]
  cases r.decl <;> rfl

/-- No root export is honored before the entry file. -/
theorem not_honored_before (p : Program) :
    (p.readingsTo p.entry.toNat).any (·.honors.isSome) = false := by
  rw [readingsTo_eq, List.any_eq_false]
  intro r hr
  obtain ⟨i, hi, hr⟩ := List.mem_flatMap.mp hr
  have hnil := List.flatMap_eq_nil_iff.mp
    (honors_eq_nil (Nat.ne_of_lt (List.mem_range.mp hi))) r hr
  rw [Option.toList_eq_nil_iff] at hnil
  simp [hnil]

end Program

end Sema
