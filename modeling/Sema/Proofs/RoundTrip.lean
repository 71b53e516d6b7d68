import Sema.Proofs.Analyzed
import Sema.Proofs.JsonText
import Sema.Proofs.TextCheck

/-!
Programs as texts. The text of a program that opens no more arrays and objects than a text may is
decoded to this program, and every program that some text is decoded to is of this kind.
-/

namespace Sema

open Json (Fits FitsAll FitsMembers)

/-! ### Numbers -/

theorem Json.fits_array_map {α : Type} {encode : α → Json} {l : List α}
    (h : ∀ x ∈ l, (encode x).Fits) : (array (l.map encode)).Fits := by
  induction l with
  | nil => trivial
  | cons x l ih =>
    obtain ⟨hx, hl⟩ := List.forall_mem_cons.mp h
    exact ⟨hx, ih hl⟩

theorem Json.fits_word32 (n : UInt32) : (natural n.toNat).Fits :=
  Nat.lt_trans n.toNat_lt (by decide)

theorem Position.fits (p : Position) : p.toJson.Fits :=
  ⟨Json.fits_word32 _, Json.fits_word32 _, Json.fits_word32 _, trivial⟩

theorem Node.fits_members {n : Node} {ms : List (String × Json)} (h : FitsMembers ms) :
    (Json.object (n.members ++ ms)).Fits :=
  ⟨Json.fits_word32 _, n.pos.fits, h⟩

theorem Node.fits_withKind {n : Node} {tag : String} {ms : List (String × Json)}
    (h : FitsMembers ms) : (n.withKind tag ms).Fits :=
  Node.fits_members ⟨⟨trivial, h⟩, trivial⟩

theorem directives_fit (ds : List Directive) : (directivesToJson ds).Fits :=
  Json.fits_array_map fun _ _ => Node.fits_members ⟨trivial, trivial, trivial⟩

theorem TypeRef.fits : ∀ t : TypeRef, t.toJson.Fits
  | .named _ _ => Node.fits_withKind ⟨trivial, trivial⟩
  | .pointer _ _ child => Node.fits_withKind ⟨trivial, child.fits, trivial⟩

mutual

theorem Expr.fits : ∀ e : Expr, e.toJson.Fits
  | .block _ l => Node.fits_withKind ⟨exprs_fit l, trivial⟩
  | .ret _ v => Node.fits_withKind ⟨optionalExpr_fits v, trivial⟩
  | .binary _ _ l r => Node.fits_withKind ⟨trivial, l.fits, r.fits, trivial⟩
  | .call _ c args => Node.fits_withKind ⟨c.fits, exprs_fit args, trivial⟩
  | .number _ _ => Node.fits_withKind ⟨trivial, trivial⟩
  | .string _ _ => Node.fits_withKind ⟨trivial, trivial⟩
  | .unreachable _ => Node.fits_withKind trivial
  | .void _ => Node.fits_withKind trivial
  | .symbol _ _ => Node.fits_withKind ⟨trivial, trivial⟩
  | .cast _ e t => Node.fits_withKind ⟨e.fits, t.fits, trivial⟩
  | .unary _ _ e => Node.fits_withKind ⟨trivial, e.fits, trivial⟩
  | .cond _ c th el => Node.fits_withKind ⟨c.fits, th.fits, optionalExpr_fits el, trivial⟩

theorem exprs_fit : ∀ l : List Expr, FitsAll (exprsToJson l)
  | [] => trivial
  | e :: l => ⟨e.fits, exprs_fit l⟩

theorem optionalExpr_fits : ∀ e : Option Expr, (optionalExprToJson e).Fits
  | none => trivial
  | some e => e.fits

end

theorem Prototype.fits (p : Prototype) : p.toJson.Fits :=
  have params : (Json.array (p.params.map Param.toJson)).Fits :=
    Json.fits_array_map fun q _ => Node.fits_members ⟨trivial, q.type.fits, trivial⟩
  Node.fits_members
    ⟨trivial, trivial, params, p.returnType.fits, directives_fit p.directives, trivial⟩

theorem Decl.fits (d : Decl) : d.toJson.Fits := by
  cases d with
  | fnDef d =>
    exact ⟨trivial, Node.fits_members ⟨d.proto.fits, d.body.fits, trivial⟩⟩
  | externalBlock b =>
    have hfunctions : (Json.array (b.functions.map ExternalFn.toJson)).Fits :=
      Json.fits_array_map fun f _ => Node.fits_members ⟨f.proto.fits, trivial⟩
    exact ⟨trivial, Node.fits_members ⟨directives_fit b.directives, hfunctions, trivial⟩⟩
  | rootExport e =>
    exact ⟨trivial, Node.fits_members ⟨trivial, trivial, directives_fit e.directives, trivial⟩⟩
  | use u =>
    exact ⟨trivial, Node.fits_members ⟨trivial, directives_fit u.directives, trivial⟩⟩

theorem SourceFile.fits (f : SourceFile) : f.toJson.Fits :=
  ⟨trivial, Node.fits_members ⟨Json.fits_array_map fun d _ => d.fits, trivial⟩, trivial⟩

theorem Program.fits (p : Program) : p.toJson.Fits :=
  ⟨Json.fits_array_map fun f _ => f.fits, p.entry.toNat_lt, trivial⟩

/-! ### Texts -/

namespace Program

/-- The text of a program is decoded to it if it is not too deep. -/
theorem ofText_toText {p : Program} (h : p.toJson.depth ≤ maxDepth) : ofText p.toText = .ok p := by
  rw [ofText, toText, Json.ofText_compact p.fits, ofReading,
    DecodeError.passes_program maxDepth p h]
  simp only [Program.restores maxDepth p h]
  rfl

/-- What a text is decoded to is not too deep. -/
theorem depth_of_ofText {s : String} {p : Program} (h : ofText s = .ok p) :
    p.toJson.depth ≤ maxDepth := by
  rw [ofText, bind_eq_ok_iff] at h
  obtain ⟨q, hq, h⟩ := h
  split at h
  · cases h
  · obtain rfl := Except.ok.inj h
    rw [ofReading, bind_eq_ok_iff] at hq
    obtain ⟨_, hcheck, hq⟩ := hq
    split at hq
    · next hread =>
      obtain rfl := Except.ok.inj hq
      exact DecodeError.bounds_program maxDepth _ _ _ hcheck hread
    · cases hq

/-- A program is what its own text is decoded to exactly if it never has 128 arrays and objects open
at once; and so is each program that some text is decoded to, however the text is spelled. -/
theorem text_round_trip :
    (∀ p : Program, ofText p.toText = .ok p ↔ p.toJson.depth < 128) ∧
    ∀ (s : String) (p : Program), ofText s = .ok p → ofText p.toText = .ok p :=
  ⟨fun _ => ⟨fun h => Nat.lt_succ_of_le (depth_of_ofText h),
      fun h => ofText_toText (Nat.le_of_lt_succ h)⟩,
    fun _ _ h => ofText_toText (depth_of_ofText h)⟩

/-- A program whose records are arrays, all but one, which has its members in another order and one
member too many. The position says nothing of the offset. -/
def spelling : String :=
  "[[[\"a\", \x7b\"pos\": [1, 1], \"more\": [null], \"decls\": [], \"id\": 7\x7d]], 0]"

theorem spelling_ok : ∃ p, ofText spelling = .ok p ∧
    p.files.map (fun f => (f.path, f.root)) = [("a", .numbered 7)] := by
  have h : (ofText spelling).map (fun p => p.files.map fun f => (f.path, f.root)) =
      .ok [("a", .numbered 7)] := by
    decide +kernel
  exact map_eq_ok_iff.mp h

theorem spelling_round_trip : sample.toJson.depth < 128 ∧ ofText sample.toText = .ok sample ∧
    ∃ p, ofText spelling = .ok p ∧ p.files.map (fun f => (f.path, f.root)) = [("a", .numbered 7)] ∧
      ofText p.toText = .ok p := by
  have hdepth : sample.toJson.depth < 128 := by decide +kernel
  obtain ⟨p, hp, hfiles⟩ := spelling_ok
  exact ⟨hdepth, (text_round_trip.1 sample).mpr hdepth, p, hp, hfiles, text_round_trip.2 _ p hp⟩

end Program

end Sema
