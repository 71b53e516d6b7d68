import Sema.Proofs.RecordChanges

/-!
What is respelled is decoded as before: each reader gives what it gave, since the fields that it
takes are kept.
-/

namespace Sema

open Json (Reading Members)
open Json.Reading (Fields)

/-! ### Readers -/

section

variable {fs : List Form.Field} {f f' : Fields} {r r' : Reading} {depth : Nat}

theorem Node.ofFields?_kept (h : FieldsKept fs f f') (hfs : Form.nodeFields ⊆ fs) {n : Node}
    (hn : Node.ofFields? f = some n) : Node.ofFields? f' = some n := by
  simp only [ofFields?, Option.bind_eq_bind, Option.bind_eq_some_iff, Option.pure_def,
    Option.some.injEq] at hn
  obtain ⟨id, hid, pos, hpos, rfl⟩ := hn
  have hid' := h.required (.single _) (hfs (List.mem_cons_self ..)) hid
  have hpos' := h.required .position (hfs (List.mem_cons_of_mem _ (List.mem_cons_self ..))) hpos
  simp [ofFields?, hid', hpos']

theorem directives?_kept (h : FieldsKept fs f f') (hfs : Form.directivesField ∈ fs)
    {ds : List Directive} (hds : directives? f = some ds) : directives? f' = some ds := by
  refine h.defaulted (.list .directive) hfs ?_ hds
  rintro _ rfl
  rfl

theorem Position.ofReading?_kept (h : RecordKept (Form.fields .position) r r') {p : Position}
    (hp : ofReading? r = some p) : ofReading? r' = some p := by
  simp only [ofReading?, Option.bind_eq_bind, Option.bind_eq_some_iff, Option.pure_def,
    Option.some.injEq] at hp
  obtain ⟨f, hf, line, hline, column, hcolumn, offset, hoffset, rfl⟩ := hp
  obtain ⟨f', hf', hk⟩ := h f hf
  have hline' := hk.required (.single _) (by simp [Form.fields]) hline
  have hcolumn' := hk.required (.single _) (by simp [Form.fields]) hcolumn
  have hmem : (⟨"offset", .single, (· = .number (.natural 0))⟩ : Form.Field) ∈
      Form.fields .position := by simp [Form.fields]
  have hoffset' := hk.defaulted (.single _) hmem (by rintro _ rfl; rfl) hoffset
  exact Option.bind_eq_some_iff.mpr ⟨f', hf', by simp [hline', hcolumn', hoffset']⟩

theorem Directive.ofReading?_kept (h : RecordKept (Form.fields .directive) r r') {d : Directive}
    (hd : ofReading? r = some d) : ofReading? r' = some d := by
  simp only [ofReading?, Option.bind_eq_bind, Option.bind_eq_some_iff, Option.pure_def,
    Option.some.injEq] at hd
  obtain ⟨f, hf, node, hnode, name, hname, param, hparam, rfl⟩ := hd
  obtain ⟨f', hf', hk⟩ := h f hf
  have hnode' := Node.ofFields?_kept hk (List.subset_append_left ..) hnode
  have hname' := hk.required (.single _) (by simp [Form.fields]) hname
  have hmem : (⟨"param", .single, (· = .string (some ""))⟩ : Form.Field) ∈
      Form.fields .directive := by simp [Form.fields]
  have hparam' := hk.defaulted (.single _) hmem (by rintro _ rfl; rfl) hparam
  exact Option.bind_eq_some_iff.mpr ⟨f', hf', by simp [hnode', hname', hparam']⟩

theorem TypeRef.ofReading?_kept (h : RecordKept (Form.fields .typeRef) r r') {t : TypeRef}
    (ht : ofReading? depth r = some t) : ofReading? depth r' = some t := by
  cases depth with
  | zero => cases ht
  | succ depth =>
    rw [ofReading?_succ] at ht ⊢
    obtain ⟨f, hf, ht⟩ := Option.bind_eq_some_iff.mp ht
    obtain ⟨node, hnode, hkind⟩ := Option.bind_eq_some_iff.mp ht
    obtain ⟨f', hf', hk⟩ := h f hf
    have hnode' := Node.ofFields?_kept hk (List.subset_append_left ..) hnode
    have hkind' := hk.required (.typeKind depth node) (by simp [Form.fields]) hkind
    exact Option.bind_eq_some_iff.mpr ⟨f', hf', Option.bind_eq_some_iff.mpr ⟨node, hnode', hkind'⟩⟩

theorem TypeRef.readKind?_kept {gs : List Form.Field} {node : Node} {tag : String} {kind : Reading}
    (htag : r.tagged? tags = some (tag, kind)) (hgs : Form.typeKind.variants.lookup tag = some gs)
    (h : RecordKept (.required "type" .single :: gs) r r') {t : TypeRef}
    (ht : readKind? depth node r = some t) : readKind? depth node r' = some t := by
  simp only [readKind?, htag, Option.bind_eq_bind, Option.bind_some] at ht
  split at ht
  · next hprimitive =>
    subst hprimitive
    obtain rfl := Option.some.inj hgs
    simp only [Option.bind_eq_some_iff, Option.pure_def, Option.some.injEq] at ht
    obtain ⟨f, hf, name, hname, rfl⟩ := ht
    obtain ⟨kind', f', htag', hf', hk⟩ := h.tagged (by decide) htag hf
    have hname' := hk.required (.single _) (List.mem_cons_self ..) hname
    simp only [readKind?, htag', Option.bind_eq_bind, Option.bind_some, if_pos]
    exact Option.bind_eq_some_iff.mpr ⟨f', hf', by simp [hname']⟩
  · next hne =>
    have hpointer : tag = "pointer" := by
      by_contra hne'
      simp [Form.variants, lookup_cons_eq_ite, hne, hne'] at hgs
    subst hpointer
    obtain rfl := Option.some.inj hgs
    simp only [Option.bind_eq_some_iff, Option.pure_def, Option.some.injEq] at ht
    obtain ⟨f, hf, isConst, hconst, child, hchild, rfl⟩ := ht
    obtain ⟨kind', f', htag', hf', hk⟩ := h.tagged (by decide) htag hf
    have hconst' := hk.required (.single _) (by simp) hconst
    have hchild' := hk.required (.typeRef depth) (by simp) hchild
    simp only [readKind?, htag', Option.bind_eq_bind, Option.bind_some, if_neg hne]
    exact Option.bind_eq_some_iff.mpr ⟨f', hf', by simp [hconst', hchild']⟩

theorem Param.ofReading?_kept (h : RecordKept (Form.fields .param) r r') {p : Param}
    (hp : ofReading? depth r = some p) : ofReading? depth r' = some p := by
  simp only [ofReading?, Option.bind_eq_bind, Option.bind_eq_some_iff, Option.pure_def,
    Option.some.injEq] at hp
  obtain ⟨f, hf, node, hnode, name, hname, t, ht, rfl⟩ := hp
  obtain ⟨f', hf', hk⟩ := h f hf
  have hnode' := Node.ofFields?_kept hk (List.subset_append_left ..) hnode
  have hname' := hk.required (.single _) (by simp [Form.fields]) hname
  have ht' := hk.required (.typeRef depth) (by simp [Form.fields]) ht
  exact Option.bind_eq_some_iff.mpr ⟨f', hf', by simp [hnode', hname', ht']⟩

theorem Prototype.ofReading?_kept (h : RecordKept (Form.fields .prototype) r r') {p : Prototype}
    (hp : ofReading? depth r = some p) : ofReading? depth r' = some p := by
  simp only [ofReading?, Option.bind_eq_bind, Option.bind_eq_some_iff, Option.pure_def,
    Option.some.injEq] at hp
  obtain ⟨f, hf, node, hnode, name, hname, v, hv, ps, hps, t, ht, ds, hds, rfl⟩ := hp
  obtain ⟨f', hf', hk⟩ := h f hf
  have hnode' := Node.ofFields?_kept hk (List.subset_append_left ..) hnode
  have hname' := hk.required (.single _) (by simp [Form.fields]) hname
  have hmem : (⟨"visibility", .single, (·.choice? Visibility.ofWord? = some .fileOnly)⟩ :
      Form.Field) ∈ Form.fields .prototype := by simp [Form.fields]
  have hv' := hk.defaulted (.single _) hmem (fun _ => id) hv
  have hps' := hk.required (.list (.param depth)) (by simp [Form.fields]) hps
  have ht' := hk.required (.typeRef depth) (by simp [Form.fields]) ht
  have hds' := directives?_kept hk (by simp [Form.fields]) hds
  exact Option.bind_eq_some_iff.mpr ⟨f', hf', by simp [hnode', hname', hv', hps', ht', hds']⟩

theorem Expr.ofReading?_kept (h : RecordKept (Form.fields .expr) r r') {e : Expr}
    (he : ofReading? depth r = some e) : ofReading? depth r' = some e := by
  cases depth with
  | zero => cases he
  | succ depth =>
    rw [ofReading?_succ] at he ⊢
    obtain ⟨f, hf, he⟩ := Option.bind_eq_some_iff.mp he
    obtain ⟨node, hnode, hkind⟩ := Option.bind_eq_some_iff.mp he
    obtain ⟨f', hf', hk⟩ := h f hf
    have hnode' := Node.ofFields?_kept hk (List.subset_append_left ..) hnode
    have hkind' := hk.required (.exprKind depth node) (by simp [Form.fields]) hkind
    exact Option.bind_eq_some_iff.mpr ⟨f', hf', Option.bind_eq_some_iff.mpr ⟨node, hnode', hkind'⟩⟩

theorem Expr.readKind?_of_tagged? {node : Node} {tag : String} {kind : Reading} {e : Expr}
    (htag : r.tagged? tags = some (tag, kind))
    (he : ofKind? depth (ofReading? depth) node tag kind = some e) :
    readKind? depth node r = some e := by
  rw [readKind?, htag]
  exact he

theorem Expr.readKind?_kept {gs : List Form.Field} {node : Node} {tag : String} {kind : Reading}
    (htag : r.tagged? tags = some (tag, kind)) (hgs : Form.exprKind.variants.lookup tag = some gs)
    (h : RecordKept (.required "type" .single :: gs) r r') {e : Expr}
    (he : readKind? depth node r = some e) : readKind? depth node r' = some e := by
  have hpart := ReadBy.expr depth
  simp only [readKind?, htag, Option.bind_eq_bind, Option.bind_some] at he
  rw [ofKind?.eq_def] at he
  -- one case for each tag, which gives the fields
  split at he <;> simp only [Option.bind_eq_bind, Option.bind_eq_some_iff, Option.pure_def,
    Option.some.injEq, reduceCtorEq] at he
  · obtain rfl := Option.some.inj hgs
    obtain ⟨f, hf, l, hl, rfl⟩ := he
    obtain ⟨kind', f', htag', hf', hk⟩ := h.tagged (by decide) htag hf
    have hl' := hk.required (.list hpart) (by simp) hl
    exact readKind?_of_tagged? htag' (Option.bind_eq_some_iff.mpr ⟨f', hf', by simp [hl']⟩)
  · obtain rfl := Option.some.inj hgs
    obtain ⟨f, hf, v, hv, rfl⟩ := he
    obtain ⟨kind', f', htag', hf', hk⟩ := h.tagged (by decide) htag hf
    have hv' := hk.nullable hpart (by simp) hv
    exact readKind?_of_tagged? htag' (Option.bind_eq_some_iff.mpr ⟨f', hf', by simp [hv']⟩)
  · obtain rfl := Option.some.inj hgs
    obtain ⟨f, hf, op, hop, left, hleft, right, hright, rfl⟩ := he
    obtain ⟨kind', f', htag', hf', hk⟩ := h.tagged (by decide) htag hf
    have hop' := hk.required (.single _) (by simp) hop
    have hleft' := hk.required hpart (by simp) hleft
    have hright' := hk.required hpart (by simp) hright
    exact readKind?_of_tagged? htag'
      (Option.bind_eq_some_iff.mpr ⟨f', hf', by simp [hop', hleft', hright']⟩)
  · obtain rfl := Option.some.inj hgs
    obtain ⟨f, hf, callee, hcallee, args, hargs, rfl⟩ := he
    obtain ⟨kind', f', htag', hf', hk⟩ := h.tagged (by decide) htag hf
    have hcallee' := hk.required hpart (by simp) hcallee
    have hargs' := hk.required (.list hpart) (by simp) hargs
    exact readKind?_of_tagged? htag'
      (Option.bind_eq_some_iff.mpr ⟨f', hf', by simp [hcallee', hargs']⟩)
  · obtain rfl := Option.some.inj hgs
    obtain ⟨f, hf, text, htext, rfl⟩ := he
    obtain ⟨kind', f', htag', hf', hk⟩ := h.tagged (by decide) htag hf
    have htext' := hk.required (.single _) (by simp) htext
    exact readKind?_of_tagged? htag' (Option.bind_eq_some_iff.mpr ⟨f', hf', by simp [htext']⟩)
  · obtain rfl := Option.some.inj hgs
    obtain ⟨f, hf, text, htext, rfl⟩ := he
    obtain ⟨kind', f', htag', hf', hk⟩ := h.tagged (by decide) htag hf
    have htext' := hk.required (.single _) (by simp) htext
    exact readKind?_of_tagged? htag' (Option.bind_eq_some_iff.mpr ⟨f', hf', by simp [htext']⟩)
  · obtain rfl := Option.some.inj hgs
    obtain ⟨f, hf, rfl⟩ := he
    obtain ⟨kind', f', htag', hf', -⟩ := h.tagged (by decide) htag hf
    exact readKind?_of_tagged? htag' (Option.bind_eq_some_iff.mpr ⟨f', hf', rfl⟩)
  · obtain rfl := Option.some.inj hgs
    obtain ⟨f, hf, rfl⟩ := he
    obtain ⟨kind', f', htag', hf', -⟩ := h.tagged (by decide) htag hf
    exact readKind?_of_tagged? htag' (Option.bind_eq_some_iff.mpr ⟨f', hf', rfl⟩)
  · obtain rfl := Option.some.inj hgs
    obtain ⟨f, hf, name, hname, rfl⟩ := he
    obtain ⟨kind', f', htag', hf', hk⟩ := h.tagged (by decide) htag hf
    have hname' := hk.required (.single _) (by simp) hname
    exact readKind?_of_tagged? htag' (Option.bind_eq_some_iff.mpr ⟨f', hf', by simp [hname']⟩)
  · obtain rfl := Option.some.inj hgs
    obtain ⟨f, hf, operand, hoperand, t, ht, rfl⟩ := he
    obtain ⟨kind', f', htag', hf', hk⟩ := h.tagged (by decide) htag hf
    have hoperand' := hk.required hpart (by simp) hoperand
    have ht' := hk.required (.typeRef depth) (by simp) ht
    exact readKind?_of_tagged? htag'
      (Option.bind_eq_some_iff.mpr ⟨f', hf', by simp [hoperand', ht']⟩)
  · obtain rfl := Option.some.inj hgs
    obtain ⟨f, hf, op, hop, operand, hoperand, rfl⟩ := he
    obtain ⟨kind', f', htag', hf', hk⟩ := h.tagged (by decide) htag hf
    have hop' := hk.required (.single _) (by simp) hop
    have hoperand' := hk.required hpart (by simp) hoperand
    exact readKind?_of_tagged? htag'
      (Option.bind_eq_some_iff.mpr ⟨f', hf', by simp [hop', hoperand']⟩)
  · obtain rfl := Option.some.inj hgs
    obtain ⟨f, hf, c, hc, th, hth, el, hel, rfl⟩ := he
    obtain ⟨kind', f', htag', hf', hk⟩ := h.tagged (by decide) htag hf
    have hc' := hk.required hpart (by simp) hc
    have hth' := hk.required hpart (by simp) hth
    have hel' := hk.nullable hpart (by simp) hel
    exact readKind?_of_tagged? htag'
      (Option.bind_eq_some_iff.mpr ⟨f', hf', by simp [hc', hth', hel']⟩)

theorem ExternalFn.ofReading?_kept (h : RecordKept (Form.fields .externalFn) r r') {g : ExternalFn}
    (hg : ofReading? depth r = some g) : ofReading? depth r' = some g := by
  simp only [ofReading?, Option.bind_eq_bind, Option.bind_eq_some_iff, Option.pure_def,
    Option.some.injEq] at hg
  obtain ⟨f, hf, node, hnode, p, hp, rfl⟩ := hg
  obtain ⟨f', hf', hk⟩ := h f hf
  have hnode' := Node.ofFields?_kept hk (List.subset_append_left ..) hnode
  have hp' := hk.required (.prototype depth) (by simp [Form.fields]) hp
  exact Option.bind_eq_some_iff.mpr ⟨f', hf', by simp [hnode', hp']⟩

theorem Decl.ofReading?_kept {gs : List Form.Field} {tag : String} {kind : Reading}
    (htag : r.tagged? tags = some (tag, kind)) (hgs : Form.decl.variants.lookup tag = some gs)
    (h : RecordKept (.required "type" .single :: gs) r r') {d : Decl}
    (hd : ofReading? depth r = some d) : ofReading? depth r' = some d := by
  simp only [ofReading?, htag, Option.bind_eq_bind, Option.bind_some] at hd
  -- one case for each tag, which gives the fields
  split at hd
  · obtain rfl := Option.some.inj hgs
    obtain ⟨x, hx, rfl⟩ := Option.map_eq_some_iff.mp hd
    simp only [FnDef.ofReading?, Option.bind_eq_bind, Option.bind_eq_some_iff, Option.pure_def,
      Option.some.injEq] at hx
    obtain ⟨f, hf, node, hnode, p, hp, body, hbody, rfl⟩ := hx
    obtain ⟨kind', f', htag', hf', hk⟩ := h.tagged (by decide) htag hf
    have hnode' := Node.ofFields?_kept hk (List.subset_append_left ..) hnode
    have hp' := hk.required (.prototype depth) (by simp) hp
    have hbody' := hk.required (.expr depth) (by simp) hbody
    simp only [ofReading?, htag', Option.bind_eq_bind, Option.bind_some]
    exact Option.map_eq_some_iff.mpr
      ⟨_, Option.bind_eq_some_iff.mpr ⟨f', hf', by simp [hnode', hp', hbody']⟩, rfl⟩
  · obtain rfl := Option.some.inj hgs
    obtain ⟨x, hx, rfl⟩ := Option.map_eq_some_iff.mp hd
    simp only [ExternalBlock.ofReading?, Option.bind_eq_bind, Option.bind_eq_some_iff,
      Option.pure_def, Option.some.injEq] at hx
    obtain ⟨f, hf, node, hnode, ds, hds, fns, hfns, rfl⟩ := hx
    obtain ⟨kind', f', htag', hf', hk⟩ := h.tagged (by decide) htag hf
    have hnode' := Node.ofFields?_kept hk (List.subset_append_left ..) hnode
    have hds' := directives?_kept hk (by simp) hds
    have hfns' := hk.required (.list (.externalFn depth)) (by simp) hfns
    simp only [ofReading?, htag', Option.bind_eq_bind, Option.bind_some]
    exact Option.map_eq_some_iff.mpr
      ⟨_, Option.bind_eq_some_iff.mpr ⟨f', hf', by simp [hnode', hds', hfns']⟩, rfl⟩
  · obtain rfl := Option.some.inj hgs
    obtain ⟨x, hx, rfl⟩ := Option.map_eq_some_iff.mp hd
    simp only [RootExport.ofReading?, Option.bind_eq_bind, Option.bind_eq_some_iff,
      Option.pure_def, Option.some.injEq] at hx
    obtain ⟨f, hf, node, hnode, kd, hkd, name, hname, ds, hds, rfl⟩ := hx
    obtain ⟨kind', f', htag', hf', hk⟩ := h.tagged (by decide) htag hf
    have hnode' := Node.ofFields?_kept hk (List.subset_append_left ..) hnode
    have hkd' := hk.required (.single _) (by simp) hkd
    have hname' := hk.required (.single _) (by simp) hname
    have hds' := directives?_kept hk (by simp) hds
    simp only [ofReading?, htag', Option.bind_eq_bind, Option.bind_some]
    exact Option.map_eq_some_iff.mpr
      ⟨_, Option.bind_eq_some_iff.mpr ⟨f', hf', by simp [hnode', hkd', hname', hds']⟩, rfl⟩
  · obtain rfl := Option.some.inj hgs
    obtain ⟨x, hx, rfl⟩ := Option.map_eq_some_iff.mp hd
    simp only [UseDecl.ofReading?, Option.bind_eq_bind, Option.bind_eq_some_iff,
      Option.pure_def, Option.some.injEq] at hx
    obtain ⟨f, hf, node, hnode, path, hpath, ds, hds, rfl⟩ := hx
    obtain ⟨kind', f', htag', hf', hk⟩ := h.tagged (by decide) htag hf
    have hnode' := Node.ofFields?_kept hk (List.subset_append_left ..) hnode
    have hpath' := hk.required (.single _) (by simp) hpath
    have hds' := directives?_kept hk (by simp) hds
    simp only [ofReading?, htag', Option.bind_eq_bind, Option.bind_some]
    exact Option.map_eq_some_iff.mpr
      ⟨_, Option.bind_eq_some_iff.mpr ⟨f', hf', by simp [hnode', hpath', hds']⟩, rfl⟩
  · cases hd

theorem SourceFile.rootOfReading?_kept (h : RecordKept (Form.fields .root) r r')
    {x : Node × List Decl} (hx : rootOfReading? depth r = some x) :
    rootOfReading? depth r' = some x := by
  simp only [rootOfReading?, Option.bind_eq_bind, Option.bind_eq_some_iff, Option.pure_def,
    Option.some.injEq] at hx
  obtain ⟨f, hf, node, hnode, ds, hds, rfl⟩ := hx
  obtain ⟨f', hf', hk⟩ := h f hf
  have hnode' := Node.ofFields?_kept hk (List.subset_append_left ..) hnode
  have hds' := hk.required (.list (.decl depth)) (by simp [Form.fields]) hds
  exact Option.bind_eq_some_iff.mpr ⟨f', hf', by simp [hnode', hds']⟩

theorem SourceFile.ofReading?_kept (h : RecordKept (Form.fields .sourceFile) r r') {x : SourceFile}
    (hx : ofReading? depth r = some x) : ofReading? depth r' = some x := by
  simp only [ofReading?, Option.bind_eq_bind, Option.bind_eq_some_iff, Option.pure_def,
    Option.some.injEq] at hx
  obtain ⟨f, hf, path, hpath, root, hroot, rfl⟩ := hx
  obtain ⟨f', hf', hk⟩ := h f hf
  have hpath' := hk.required (.single _) (by simp [Form.fields]) hpath
  have hroot' := hk.required (.root depth) (by simp [Form.fields]) hroot
  exact Option.bind_eq_some_iff.mpr ⟨f', hf', by simp [hpath', hroot']⟩

theorem Program.ofReading?_kept (h : RecordKept (Form.fields .program) r r') {p : Program}
    (hp : ofReading? depth r = some p) : ofReading? depth r' = some p := by
  simp only [ofReading?, Option.bind_eq_bind, Option.bind_eq_some_iff, Option.pure_def,
    Option.some.injEq] at hp
  obtain ⟨f, hf, files, hfiles, entry, hentry, rfl⟩ := hp
  obtain ⟨f', hf', hk⟩ := h f hf
  have hfiles' := hk.required (.list (.sourceFile depth)) (by simp [Form.fields]) hfiles
  have hentry' := hk.required (.single _) (by simp [Form.fields]) hentry
  exact Option.bind_eq_some_iff.mpr ⟨f', hf', by simp [hfiles', hentry']⟩

end

/-! ### Any change -/

section

variable {F : Form} {fs : List Form.Field} {r r' : Reading}

/-- A tag tells the fields that stand beside it. -/
theorem Form.exists_variant (hF : F.variants ≠ []) (h : F.fieldsIn r = some fs) :
    ∃ tag kind gs, r.tagged? (F.variants.map (·.1)) = some (tag, kind) ∧
      F.variants.lookup tag = some gs ∧ fs = .required "type" .single :: gs := by
  have hbind : F.fieldsIn r = (r.tagged? (F.variants.map (·.1))).bind fun x =>
      (F.variants.lookup x.1).map (.required "type" .single :: ·) := by
    cases F with
    | typeKind | exprKind | decl => exact Option.bind_congr fun _ _ => Option.map_eq_bind.symm
    | _ => exact absurd rfl hF
  obtain ⟨⟨tag, kind⟩, htag, hmap⟩ := Option.bind_eq_some_iff.mp (hbind.symm.trans h)
  obtain ⟨gs, hgs, rfl⟩ := Option.map_eq_some_iff.mp hmap
  exact ⟨tag, kind, gs, htag, hgs, rfl⟩

/-- No two fields that stand beside a tag have one name, nor has one that of the tag. -/
theorem Form.nodup_variant {tag : String} {gs : List Field} (h : F.variants.lookup tag = some gs) :
    ((Field.required "type" .single :: gs).map (·.name)).Nodup := by
  have hall : ∀ p ∈ F.variants, ((Field.required "type" .single :: p.2).map (·.name)).Nodup := by
    cases F <;> simp [variants, Field.required, nodeFields, directivesField]
  exact hall (tag, gs) (mem_of_lookup h)

/-- No two fields of one value have the same name. -/
theorem Form.nodup_fieldsIn (h : F.fieldsIn r = some fs) : (fs.map (·.name)).Nodup := by
  cases F with
  | single | list _ => cases h
  | typeKind | exprKind | decl =>
    obtain ⟨tag, -, gs, -, hgs, rfl⟩ := exists_variant (by simp [variants]) h
    exact nodup_variant hgs
  | _ =>
    obtain rfl := Option.some.inj h
    decide

/-- A record that is changed in one place is read as before. -/
theorem Kept.of_edits (hfs : F.fieldsIn r = some fs) (h : Edits fs (fun _ => True) Kept r r') :
    Kept F r r' := by
  have hrecord : RecordKept fs r r' := fun f => h.fields_kept (Form.nodup_fieldsIn hfs)
  refine ⟨fun hread x hx => ?_, by cases h <;> simp⟩
  cases hread with
  | single | list => cases hfs
  | position => exact Position.ofReading?_kept (Option.some.inj hfs ▸ hrecord) hx
  | directive => exact Directive.ofReading?_kept (Option.some.inj hfs ▸ hrecord) hx
  | typeRef => exact TypeRef.ofReading?_kept (Option.some.inj hfs ▸ hrecord) hx
  | param => exact Param.ofReading?_kept (Option.some.inj hfs ▸ hrecord) hx
  | prototype => exact Prototype.ofReading?_kept (Option.some.inj hfs ▸ hrecord) hx
  | expr => exact Expr.ofReading?_kept (Option.some.inj hfs ▸ hrecord) hx
  | externalFn => exact ExternalFn.ofReading?_kept (Option.some.inj hfs ▸ hrecord) hx
  | root => exact SourceFile.rootOfReading?_kept (Option.some.inj hfs ▸ hrecord) hx
  | sourceFile => exact SourceFile.ofReading?_kept (Option.some.inj hfs ▸ hrecord) hx
  | program => exact Program.ofReading?_kept (Option.some.inj hfs ▸ hrecord) hx
  | typeKind =>
    obtain ⟨tag, kind, gs, htag, hgs, rfl⟩ := Form.exists_variant (by simp [Form.variants]) hfs
    exact TypeRef.readKind?_kept htag hgs hrecord hx
  | exprKind =>
    obtain ⟨tag, kind, gs, htag, hgs, rfl⟩ := Form.exists_variant (by simp [Form.variants]) hfs
    exact Expr.readKind?_kept htag hgs hrecord hx
  | decl =>
    obtain ⟨tag, kind, gs, htag, hgs, rfl⟩ := Form.exists_variant (by simp [Form.variants]) hfs
    exact Decl.ofReading?_kept htag hgs hrecord hx

/-- A list with one item respelled is read as before. -/
theorem Kept.list {items : List Reading} {stop : Option Json.Halt} {i : Nat} {v v' : Reading}
    (given : items[i]? = some v) (same : Kept F v v') :
    Kept (.list F) (.array items stop) (.array (items.set i v') stop) := by
  refine ⟨fun hread l hl => ?_, by simp⟩
  cases hread with
  | @list _ α value? hitem =>
    rw [Reading.list?, mapM_eq_some_iff] at hl ⊢
    obtain ⟨hlt, rfl⟩ := List.getElem?_eq_some_iff.mp given
    have hsome : (value? items[i]).isSome := by
      have hmem : value? items[i] ∈ l.map some := hl ▸ List.mem_map_of_mem (List.getElem_mem hlt)
      obtain ⟨x, -, hx⟩ := List.mem_map.mp hmem
      rw [← hx, Option.isSome_some]
    obtain ⟨x, hx⟩ := Option.isSome_iff_exists.mp hsome
    have hlt' : i < (items.map value?).length := by rwa [List.length_map]
    have hsame : value? v' = (items.map value?)[i] := by
      rw [List.getElem_map, hx, same.reads hitem hx]
    rw [List.map_set, hsame, List.set_getElem_self, hl]

/-- Every reader of a form takes a value for what it is respelled as. -/
theorem Respells.kept {room : Nat} (h : Respells room F r r') : Kept F r r' := by
  induction h with
  | permute fields perm => exact .of_edits fields (.permute perm)
  | insert fields unknown => exact .of_edits fields (.insert unknown trivial)
  | drop fields mem default => exact .of_edits fields (.drop mem default)
  | member fields mem _ ih => exact .of_edits fields (.member mem ih)
  | item fields field given _ ih =>
    exact .of_edits fields (.item field given ih)
  | element given _ ih => exact .list given ih

end

end Sema
