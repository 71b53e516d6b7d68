import Sema.Proofs.Matching

/-!
The order of files does not matter. Where no name is shared by two files, a file is read alike at
every place and sees the same signatures, so every declaration of a program has its match in a program
with the same files in another order.
-/

namespace Sema

/-! ### Collecting over the places of lists -/

section

variable {α β : Type} {l m : List α} {F G : Nat → List β} {K : α → List β}

theorem flatMap_range_length (h : ∀ i x, l[i]? = some x → F i = K x) :
    (List.range l.length).flatMap F = l.flatMap K := by
  induction l using List.reverseRecOn with
  | nil => rfl
  | append_singleton l x ih =>
    have hl : ∀ i y, l[i]? = some y → F i = K y := by
      intro i y hy
      refine h i y ?_
      rw [List.getElem?_append_left (List.getElem?_eq_some_iff.mp hy).1]
      exact hy
    rw [List.length_append, List.length_singleton, List.range_succ, List.flatMap_append, ih hl,
      List.flatMap_append, List.flatMap_singleton, List.flatMap_singleton, h l.length x (by simp)]

/-- What is collected at the places of two lists with the same elements can be told by the elements
if it is the same at places of the same element. -/
theorem exists_flatMap_eq (h : l.Perm m)
    (hFG : ∀ i j x, l[i]? = some x → m[j]? = some x → F i = G j) : ∃ K : α → List β,
      (∀ i x, l[i]? = some x → F i = K x) ∧ (List.range l.length).flatMap F = l.flatMap K ∧
      (List.range m.length).flatMap G = m.flatMap K := by
  classical
  have hG : ∀ i j x, m[i]? = some x → m[j]? = some x → G i = G j := by
    intro i j x hi hj
    obtain ⟨k, hk⟩ := List.getElem?_of_mem (h.mem_iff.mpr (List.mem_of_getElem? hi))
    rw [← hFG k i x hk hi, hFG k j x hk hj]
  -- an element may stand at several places of `m`; any of them will do
  let K : α → List β := fun x => if hx : ∃ j, m[j]? = some x then G hx.choose else []
  have hK : ∀ j x, m[j]? = some x → G j = K x := by
    intro j x hj
    have hx : ∃ j, m[j]? = some x := ⟨j, hj⟩
    simp only [K, dif_pos hx]
    exact hG j _ x hj hx.choose_spec
  have hF : ∀ i x, l[i]? = some x → F i = K x := by
    intro i x hi
    obtain ⟨j, hj⟩ := List.getElem?_of_mem (h.mem_iff.mp (List.mem_of_getElem? hi))
    rw [hFG i j x hi hj, hK j x hj]
  exact ⟨K, hF, flatMap_range_length hF, flatMap_range_length hK⟩

theorem flatMap_range_perm (h : l.Perm m)
    (hFG : ∀ i j x, l[i]? = some x → m[j]? = some x → F i = G j) :
    ((List.range l.length).flatMap F).Perm ((List.range m.length).flatMap G) := by
  obtain ⟨K, -, hF, hG⟩ := exists_flatMap_eq h hFG
  rw [hF, hG]
  exact h.flatMap_right K

theorem flatMap_eq_of_perm (h : l.Perm m) (hK : l.Pairwise fun x y => K x = [] ∨ K y = []) :
    l.flatMap K = m.flatMap K := by
  induction h with
  | nil => rfl
  | cons x _ ih => rw [List.flatMap_cons, List.flatMap_cons, ih (List.pairwise_cons.mp hK).2]
  | swap x y l =>
    rw [List.flatMap_cons, List.flatMap_cons, List.flatMap_cons, List.flatMap_cons]
    rcases (List.pairwise_cons.mp hK).1 x (List.mem_cons_self ..) with hnil | hnil <;> simp [hnil]
  | trans h _ ih ih' => rw [ih hK, ih' (h.pairwise hK fun hor => hor.symm)]

/-- Where there is something at one place at most, the order does not matter at all. -/
theorem flatMap_range_eq_of_perm (h : l.Perm m)
    (hFG : ∀ i j x, l[i]? = some x → m[j]? = some x → F i = G j)
    (hone : ∀ i j, i ≠ j → F i = [] ∨ F j = []) :
    (List.range l.length).flatMap F = (List.range m.length).flatMap G := by
  obtain ⟨K, hK, hF, hG⟩ := exists_flatMap_eq h hFG
  rw [hF, hG]
  refine flatMap_eq_of_perm h (List.pairwise_iff_getElem.mpr fun i j hi hj hlt => ?_)
  rw [← hK i _ (List.getElem?_eq_getElem hi), ← hK j _ (List.getElem?_eq_getElem hj)]
  exact hone i j (Nat.ne_of_lt hlt)

end

/-- The names of the functions of a file that every file sees. -/
def SourceFile.sharedNames (f : SourceFile) : List String := f.interface.map Prod.fst

theorem Function.mem_interface_iff {fs : List Function} {name : String} {sig : Signature Ty} :
    (name, sig) ∈ interface fs ↔
      ∃ f ∈ fs, f.proto.visibility = .shared ∧ f.name = name ∧ f.signature = sig := by
  simp [interface, and_assoc]

theorem SourceFile.mem_sharedNames {f : SourceFile} {d : Decl} (hd : d ∈ f.decls) {i : Nat}
    {g : Function} (hg : g ∈ d.functions i) (hshared : g.proto.visibility = .shared) :
    g.name ∈ f.sharedNames := by
  refine List.mem_map.mpr ⟨(g.name, g.signature), Function.mem_interface_iff.mpr
    ⟨g.inFile 0, List.mem_flatMap.mpr ⟨d, hd, ?_⟩, hshared, rfl, rfl⟩, rfl⟩
  rw [← Decl.map_inFile_functions i 0]
  exact List.mem_map_of_mem hg

/-! ### Programs -/

namespace Program

variable {p q : Program}

theorem map_fst_marked (p : Program) : p.marked.map Prod.fst = p.files := by
  refine List.ext_getElem? fun i => ?_
  rw [List.getElem?_map, getElem?_marked]
  cases p.files[i]? <;> rfl

/-! ### Names that are shared -/

/-- The names that other files see of the functions of a file are shared names of the file. -/
theorem mem_sharedNames_of_interface {i : Nat} {name : String} {sig : Signature Ty}
    (h : (name, sig) ∈ Function.interface (p.functionsIn i)) :
    ∃ x, p.marked[i]? = some x ∧ name ∈ x.1.sharedNames := by
  obtain ⟨f, hf, hshared, rfl, -⟩ := Function.mem_interface_iff.mp h
  obtain ⟨r, hr, hf⟩ := List.mem_flatMap.mp hf
  obtain ⟨x, hx, -, hd⟩ := mem_readingsIn hr
  exact ⟨x, hx, SourceFile.mem_sharedNames hd (List.mem_of_mem_filter hf) hshared⟩

theorem exists_mem_sharedNames {i : Nat} {name : String}
    (h : (p.functionsIn i).filter (Function.isShared name) ≠ []) :
    ∃ x, p.marked[i]? = some x ∧ name ∈ x.1.sharedNames := by
  obtain ⟨f, hf⟩ := List.exists_mem_of_ne_nil _ h
  obtain ⟨hmem, hshared⟩ := List.mem_filter.mp hf
  simp only [Function.isShared, Bool.and_eq_true, decide_eq_true_eq] at hshared
  exact mem_sharedNames_of_interface
    (Function.mem_interface_iff.mpr ⟨f, hmem, hshared.1, hshared.2, rfl⟩)

section

variable (hshared : p.files.Pairwise fun f g => f.sharedNames.Disjoint g.sharedNames)
include hshared

/-- Other files share no name of a file. -/
theorem eq_of_mem_sharedNames {i j : Nat} {x y : SourceFile × Bool} (hx : p.marked[i]? = some x)
    (hy : p.marked[j]? = some y) {name : String} (hnx : name ∈ x.1.sharedNames)
    (hny : name ∈ y.1.sharedNames) : i = j := by
  have hdisj : ∀ {i j : Nat} {f g : SourceFile}, p.files[i]? = some f → p.files[j]? = some g →
      i < j → name ∈ f.sharedNames → name ∉ g.sharedNames := by
    intro i j f g hf hg hlt hnf hng
    obtain ⟨hi, rfl⟩ := List.getElem?_eq_some_iff.mp hf
    obtain ⟨hj, rfl⟩ := List.getElem?_eq_some_iff.mp hg
    exact List.pairwise_iff_getElem.mp hshared i j hi hj hlt hnf hng
  rcases Nat.lt_trichotomy i j with hlt | heq | hlt
  · exact absurd hny (hdisj (getElem?_files hx) (getElem?_files hy) hlt hnx)
  · exact heq
  · exact absurd hnx (hdisj (getElem?_files hy) (getElem?_files hx) hlt hny)

/-- A definition repeats no name of the files before its own. -/
theorem any_clashes_before {i : Nat} {x : SourceFile × Bool} (hx : p.marked[i]? = some x)
    {d : FnDef} (hd : .fnDef d ∈ x.1.decls) :
    ((p.readingsTo i).flatMap Reading.functions).any
      (·.Clashes (.defined d.proto d.node.id i)) = false := by
  rw [any_clashes_readingsTo, Bool.and_eq_false_imp, decide_eq_true_iff]
  intro hvis
  rw [List.any_eq_false]
  rintro ⟨name, sig⟩ hmem heq
  obtain ⟨j, hj, hmem⟩ := List.mem_flatMap.mp hmem
  obtain ⟨y, hy, hny⟩ := mem_sharedNames_of_interface hmem
  have hname : name = d.proto.name := of_decide_eq_true heq
  have hnx : d.proto.name ∈ x.1.sharedNames :=
    SourceFile.mem_sharedNames hd (List.mem_singleton_self (Function.defined d.proto d.node.id i))
      hvis
  rw [← hname] at hnx
  exact Nat.ne_of_gt (List.mem_range.mp hj) (eq_of_mem_sharedNames hshared hx hy hnx hny)

end

/-! ### Programs with the same files -/

/-- The artifact is settled by the root exports that are honored. -/
theorem outputAfter_eq (o : Output) (rs : List Reading) :
    Analysis.outputAfter o rs = (rs.flatMap (·.honors.toList)).foldl Output.honor o := by
  induction rs generalizing o with
  | nil => rfl
  | cons r rs ih =>
    rw [List.flatMap_cons, List.foldl_append, ← ih]
    cases hr : r.honors with
    | none => simp [Analysis.outputAfter, hr]
    | some e => simp [Analysis.outputAfter, hr]

theorem mem_marked_entry_iff {f : SourceFile} : (f, true) ∈ p.marked ↔ p.entryFile? = some f := by
  rw [List.mem_iff_getElem?, entryFile?]
  constructor
  · rintro ⟨i, hi⟩
    obtain rfl := (isEntry_iff hi).mp rfl
    exact getElem?_files hi
  · intro hf
    exact ⟨p.entry.toNat, by rw [getElem?_marked, hf, Option.map_some, beq_self_eq_true]⟩

/-- Whether the signatures of a program are plain can be told file by file. -/
theorem forall_declared_isPlain_iff : (∀ f ∈ declared p.decls, f.proto.IsPlain) ↔
    ∀ f ∈ p.files, ∀ d ∈ f.decls, ∀ g ∈ d.functions 0, g.proto.IsPlain := by
  have hmap : (declared p.decls).map (Function.inFile 0) =
      p.files.flatMap fun f => f.decls.flatMap (Decl.functions 0) := by
    rw [declared, List.map_flatMap, ← flatMap_snd_decls]
    exact List.flatMap_congr fun x _ => x.2.map_inFile_functions _ 0
  have hprotos : (∀ f ∈ declared p.decls, f.proto.IsPlain) ↔
      ∀ f ∈ (declared p.decls).map (Function.inFile 0), f.proto.IsPlain := by
    rw [List.forall_mem_map]
    exact Iff.rfl
  rw [hprotos, hmap]
  simp only [List.mem_flatMap]
  constructor
  · intro h f hf d hd g hg
    exact h g ⟨f, hf, d, hd, hg⟩
  · rintro h g ⟨f, hf, d, hd, hg⟩
    exact h f hf d hd g hg

/-- Whether a program has the files of another in another order, with the same entry file, and no name
is shared by two files. -/
structure Reordered (p q : Program) : Prop where
  marked : p.marked.Perm q.marked
  shared : p.files.Pairwise fun f g => f.sharedNames.Disjoint g.sharedNames

namespace Reordered

variable (h : p.Reordered q)
include h

theorem files : p.files.Perm q.files := by
  rw [← map_fst_marked, ← map_fst_marked]
  exact h.marked.map _

theorem symm : q.Reordered p :=
  ⟨h.marked.symm, h.files.pairwise h.shared List.disjoint_symm⟩

theorem flatMap_decls_perm {α : Type} (g : Decl → List α) :
    (p.decls.flatMap fun x => g x.2).Perm (q.decls.flatMap fun x => g x.2) := by
  rw [flatMap_snd_decls, flatMap_snd_decls]
  exact h.files.flatMap_right _

theorem nodup_ids (hids : p.ids.Nodup) : q.ids.Nodup :=
  (h.flatMap_decls_perm Decl.ids).nodup hids

theorem isPlain (hplain : ∀ f ∈ declared p.decls, f.proto.IsPlain) :
    ∀ f ∈ declared q.decls, f.proto.IsPlain :=
  forall_declared_isPlain_iff.mpr fun f hf =>
    forall_declared_isPlain_iff.mp hplain f (h.files.mem_iff.mpr hf)

theorem entryFile?_eq : p.entryFile? = q.entryFile? :=
  Option.ext fun f => by
    rw [← mem_marked_entry_iff, ← mem_marked_entry_iff]
    exact h.marked.mem_iff

theorem outputFindings_eq (o : Output) :
    Analysis.outputFindings p o = Analysis.outputFindings q o := by
  rw [Analysis.outputFindings, Analysis.outputFindings, Analysis.programPlace,
    Analysis.programPlace, h.entryFile?_eq]

/-- A file is read alike at its places. -/
theorem alike {i j : Nat} {x : SourceFile × Bool} (hi : p.marked[i]? = some x)
    (hj : q.marked[j]? = some x) : (p.readingsIn i).Forall₂ Reading.Alike (q.readingsIn j) := by
  rw [readingsIn_eq hi, readingsIn_eq hj]
  refine @readingsFrom_alike ⟨i, x.1.path, x.2⟩ ⟨j, x.1.path, x.2⟩ rfl rfl _ _ _ _ _
    (fun he => ?_) fun d hd => ?_
  · obtain rfl := (isEntry_iff hi).mp he
    obtain rfl := (isEntry_iff hj).mp he
    rw [not_honored_before, not_honored_before]
  · exact (any_clashes_before h.symm.shared hj hd).trans (any_clashes_before h.shared hi hd).symm

theorem flatMap_readingsIn_eq {α : Type} {g : Reading → List α}
    (hg : ∀ r r', r.Alike r' → g r = g r') {i j : Nat} {x : SourceFile × Bool}
    (hi : p.marked[i]? = some x) (hj : q.marked[j]? = some x) :
    (p.readingsIn i).flatMap g = (q.readingsIn j).flatMap g :=
  flatMap_eq_of_forall₂ ((h.alike hi hj).imp hg)

/-- The functions that are shared are the same, name by name. -/
theorem filter_isShared_eq (name : String) :
    (q.functions.filter (Function.isShared name)).map Function.signature =
      (p.functions.filter (Function.isShared name)).map Function.signature := by
  have hrange : ∀ p : Program,
      (p.functions.filter (Function.isShared name)).map Function.signature =
        (List.range p.marked.length).flatMap fun i =>
          ((p.functionsIn i).filter (Function.isShared name)).map Function.signature := by
    intro p
    rw [functions_eq_flatMap, List.filter_flatMap, List.map_flatMap, length_marked]
  rw [hrange, hrange]
  refine (flatMap_range_eq_of_perm h.marked (fun i j x hi hj => ?_) fun i j hij => ?_).symm
  · rw [functionsIn_of_alike (h.alike hi hj), Function.map_signature_filter_isShared,
      Function.map_signature_filter_isShared, Function.interface_map_inFile]
  · by_contra hne
    obtain ⟨hi, hj⟩ := not_or.mp hne
    obtain ⟨x, hx, hnx⟩ := exists_mem_sharedNames (mt List.map_eq_nil_iff.mpr hi)
    obtain ⟨y, hy, hny⟩ := exists_mem_sharedNames (mt List.map_eq_nil_iff.mpr hj)
    exact hij (eq_of_mem_sharedNames h.shared hx hy hnx hny)

theorem matches_at {i j : Nat} {x : SourceFile × Bool} (hi : p.marked[i]? = some x)
    (hj : q.marked[j]? = some x) : (p.readingsIn i).Forall₂ (p.Matches q) (q.readingsIn j) :=
  forall₂_matches (h.alike hi hj) h.filter_isShared_eq

/-- Every declaration has its match. -/
theorem exists_matches {r : Reading} (hr : r ∈ p.readings) : ∃ r', p.Matches q r r' := by
  obtain ⟨i, hr⟩ := mem_readings_iff.mp hr
  obtain ⟨x, hi, -⟩ := mem_readingsIn hr
  obtain ⟨j, hj⟩ := List.getElem?_of_mem (h.marked.mem_iff.mp (List.mem_of_getElem? hi))
  obtain ⟨r', -, hm⟩ := exists_mem_of_forall₂ (h.matches_at hi hj) hr
  exact ⟨r', hm⟩

/-- What is collected from readings is the same up to order. -/
theorem flatMap_readings_perm {α : Type} {g g' : Reading → List α}
    (hg : ∀ r r', p.Matches q r r' → g r = g' r') :
    (p.readings.flatMap g).Perm (q.readings.flatMap g') := by
  rw [readings_eq, readings_eq, List.flatMap_assoc, List.flatMap_assoc, ← length_marked,
    ← length_marked]
  exact flatMap_range_perm h.marked fun i j x hi hj =>
    flatMap_eq_of_forall₂ ((h.matches_at hi hj).imp hg)

theorem outputAfter_eq (o : Output) :
    Analysis.outputAfter o p.readings = Analysis.outputAfter o q.readings := by
  rw [Program.outputAfter_eq, Program.outputAfter_eq, readings_eq, readings_eq, List.flatMap_assoc,
    List.flatMap_assoc, ← length_marked, ← length_marked]
  refine congrArg (List.foldl Output.honor o) (flatMap_range_eq_of_perm h.marked
    (fun i j x hi hj => ?_) fun i j hij => ?_)
  · exact h.flatMap_readingsIn_eq (fun r r' hr => by rw [hr.honors_eq]) hi hj
  · by_cases hi : i = p.entry.toNat
    · exact .inr (honors_eq_nil fun hj => hij (hi.trans hj.symm))
    · exact .inl (honors_eq_nil hi)

theorem insertAll_links_eq :
    Text.insertAll (p.readings.flatMap (·.decl.links)) [] =
      Text.insertAll (q.readings.flatMap (·.decl.links)) [] := by
  refine Text.insertAll_congr fun x => ?_
  have hlinks : ∀ p : Program,
      (p.decls.flatMap fun x => x.2.links) = p.readings.flatMap (·.decl.links) :=
    fun p => flatMap_decls fun x => x.2.links
  rw [← hlinks, ← hlinks]
  exact (h.flatMap_decls_perm Decl.links).mem_iff

section

variable {options : BuildOptions} {s s' a b : Analysis} (hs : p.Signed options s)
  (hs' : q.Signed options s')
include hs hs'

theorem exists_analyze_of_exists (ha : ∃ a, p.analyze options = .ok a) :
    ∃ b, q.analyze options = .ok b := by
  rw [hs.exists_analyze_iff] at ha
  rw [hs'.exists_analyze_iff]
  intro r' hr'
  obtain ⟨r, hm⟩ := h.symm.exists_matches hr'
  exact (hm.mirrors_bodyOf hs' hs).outcome_iff.mpr (ha r hm.right)

theorem output_eq : s.output = s'.output := by
  rw [hs.runs.output, hs'.runs.output]
  exact h.outputAfter_eq _

theorem libraries_eq : s.libraries = s'.libraries := by
  rw [hs.runs.libraries, hs'.runs.libraries]
  exact h.insertAll_links_eq

/-- The functions of a file are the same, in order, but for the place of the file. -/
theorem functions_eq {i j : Nat} {x : SourceFile × Bool} (hi : p.marked[i]? = some x)
    (hj : q.marked[j]? = some x) : (s.functions.filter (·.file = i)).map (Function.inFile j) =
      s'.functions.filter (·.file = j) := by
  have hfile : ∀ (p : Program) (k : Nat), p.functions.filter (·.file = k) = p.functionsIn k := by
    intro p k
    rw [filter_functions fun f hf => of_decide_eq_true hf, List.filter_eq_self]
    exact fun f hf => decide_eq_true (file_of_mem_functionsIn hf)
  rw [hs.functions_eq, hs'.functions_eq, hfile, hfile]
  exact (functionsIn_of_alike (h.alike hi hj)).symm

theorem findings_perm (ha : p.analyze options = .ok a) (hb : q.analyze options = .ok b) :
    a.findings.Perm b.findings := by
  obtain ⟨notes, -, rfl⟩ := hs.of_analyze ha
  obtain ⟨notes', -, rfl⟩ := hs'.of_analyze hb
  have hsignatures : s.findings.Perm s'.findings := by
    rw [hs.findings_eq, hs'.findings_eq]
    exact h.flatMap_readings_perm fun r r' hm => hm.alike.findings_eq.symm
  have hbodies : (p.readings.flatMap fun r => (s.bodyOf r).findings).Perm
      (q.readings.flatMap fun r => (s'.bodyOf r).findings) :=
    h.flatMap_readings_perm fun r r' hm => (hm.mirrors_bodyOf hs hs').findings
  refine (hsignatures.append hbodies).append (.of_eq ?_)
  rw [h.outputFindings_eq, h.output_eq hs hs']

end

end Reordered

/-- The order of files does not matter if ids are distinct, names of types are plain and no name is
shared by two files: there is a result for one order when there is one for the other. Then both tell
the same of every node, register the same functions for every file, and agree about the artifact and
the libraries; and the findings of one are those of the other in some order. -/
theorem analyze_reordered {options : BuildOptions} (h : p.marked.Perm q.marked)
    (hids : p.ids.Nodup) (hplain : ∀ f ∈ declared p.decls, f.proto.IsPlain)
    (hshared : p.files.Pairwise fun f g => f.sharedNames.Disjoint g.sharedNames) :
    ((∃ a, p.analyze options = .ok a) ↔ ∃ b, q.analyze options = .ok b) ∧
    ∀ a b, p.analyze options = .ok a → q.analyze options = .ok b →
      (∀ n, a.told n = b.told n) ∧
      (∀ i j x, p.marked[i]? = some x → q.marked[j]? = some x →
        (a.functions.filter (·.file = i)).map (Function.inFile j) =
          b.functions.filter (·.file = j)) ∧
      a.output = b.output ∧ a.libraries = b.libraries ∧ a.findings.Perm b.findings := by
  have hr : p.Reordered q := ⟨h, hshared⟩
  obtain ⟨s, hs⟩ := exists_signed hids hplain options
  obtain ⟨s', hs'⟩ := exists_signed (hr.nodup_ids hids) (hr.isPlain hplain) options
  refine ⟨⟨hr.exists_analyze_of_exists hs hs', hr.symm.exists_analyze_of_exists hs' hs⟩,
    fun a b ha hb => ?_⟩
  have htold : ∀ n, a.told n = b.told n := fun n =>
    told_analyze hs hs' (fun r hmem _ => hr.exists_matches hmem)
      (fun r hmem _ => hr.symm.exists_matches hmem) ha hb
  have hfindings := hr.findings_perm hs hs' ha hb
  have houtput := hr.output_eq hs hs'
  have hlibraries := hr.libraries_eq hs hs'
  obtain ⟨notes, -, rfl⟩ := hs.of_analyze ha
  obtain ⟨notes', -, rfl⟩ := hs'.of_analyze hb
  exact ⟨htold, fun i j x hi hj => hr.functions_eq hs hs' hi hj, houtput, hlibraries, hfindings⟩

/-- The sample program with its files the other way around. -/
def sampleReversed : Program := ⟨sample.files.reverse, 1⟩

theorem sample_marked_perm : sample.marked.Perm sampleReversed.marked := .swap ..

/-- Only the second file of the sample program shares a name. -/
theorem sample_sharedNames : sample.files.map SourceFile.sharedNames = [[], ["two"]] := by
  decide +kernel

/-- Both ways the sample program has a result, with the same notes and no findings. -/
theorem sampleReversed_told : ∃ a b, sample.analyze .none = .ok a ∧
    sampleReversed.analyze .none = .ok b ∧ (∀ n, a.told n = b.told n) ∧
    a.told FnDef.sample.proto.returnType.node.id = some (.typeRef, [some "i32"]) ∧
    a.libraries = b.libraries ∧ b.findings = [] := by
  have hpair : sample.files.Pairwise fun f g => f.sharedNames.Disjoint g.sharedNames := by
    rw [← List.pairwise_map, sample_sharedNames]
    simp
  obtain ⟨hiff, hsame⟩ := @analyze_reordered _ _ .none sample_marked_perm (by decide)
    (by decide) hpair
  have hmain : (sample.analyze .none).map (·.told FnDef.sample.proto.returnType.node.id) =
      .ok (some (.typeRef, [some "i32"])) := by
    decide +kernel
  obtain ⟨a, ha, hclean, -⟩ := sample_ok
  rw [ha] at hmain
  obtain ⟨b, hb⟩ := hiff.mp ⟨a, ha⟩
  obtain ⟨htold, -, -, hlib, hperm⟩ := hsame a b ha hb
  rw [Analysis.diagnostics, List.map_eq_nil_iff] at hclean
  rw [hclean] at hperm
  exact ⟨a, b, ha, hb, htold, Except.ok.inj hmain, hlib, hperm.nil_eq.symm⟩

end Program

end Sema
