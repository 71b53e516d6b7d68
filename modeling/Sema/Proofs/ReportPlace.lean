import Sema.Diagnostic.Report
import Sema.Proofs.JsonLines
import Sema.Proofs.TextPlace

/-!
Where the report of a diagnostic points. The head of a report tells a row and a column, and with them
an index in the text. This is the offset of the diagnostic, so the character at that offset is pointed
at exactly if the text before it is ASCII: behind any other character an offset in bytes is too large
for an index.
-/

namespace Sema

namespace Span

/-- Without colors a report is the text of its spans. -/
theorem toList_render_false (spans : List Span) :
    (render false spans).toList = spans.flatMap Span.text := by
  simp [render]

theorem render_append (color : Bool) (spans spans' : List Span) :
    render color (spans ++ spans') = render color spans ++ render color spans' := by
  simp [render]

end Span

namespace Diagnostic

/-! ### Heads and lines -/

/-- The first line of a report. -/
def messageLine (d : Diagnostic) : String := "Error: " ++ d.message ++ "\n"

/-- The head of a report about a place: the message, and the line and the column, counted from one. -/
def headText (d : Diagnostic) (spot : Text.Spot) : String :=
  d.messageLine ++ (String.ofList (Span.blanks ((Nat.repr (spot.row + 1)).length + 2)) ++ "╭─[" ++
    d.file ++ ":" ++ Nat.repr (spot.row + 1) ++ ":" ++ Nat.repr (spot.column + 1) ++ "]\n")

/-- How a line is shown: without the blanks at its end, with spaces up to the next tab stop for a tab
and a space for any other blank. -/
def shownLine (line : List Char) : List Char :=
  (Text.trimEnd line).zipIdx.flatMap fun (c, column) =>
    if c = '\t' then Span.blanks (tabWidth - column % tabWidth)
    else if Text.isBlank c then [' '] else [c]

/-- What comes below the head: the line, with its number. -/
def lineText (spot : Text.Spot) : String :=
  String.ofList (Span.blanks ((Nat.repr (spot.row + 1)).length + 2)) ++ "│\n " ++
    Nat.repr (spot.row + 1) ++ " │ " ++ String.ofList (shownLine spot.line) ++ "\n"

/-- Whether a report is headed by a place. -/
def IsHeaded (d : Diagnostic) (spot : Text.Spot) (report : String) : Prop :=
  (d.headText spot).toList <+: report.toList

/-- Whether a report is headed by a place and then shows its line. -/
def IsShown (d : Diagnostic) (spot : Text.Spot) (report : String) : Prop :=
  (d.headText spot ++ lineText spot).toList <+: report.toList

theorem text_sourceSpans (target : Nat) (c : Char) (column : Nat) :
    (sourceSpans target c column).flatMap Span.text =
      if c = '\t' then Span.blanks (tabWidth - column % tabWidth)
      else if Text.isBlank c then [' '] else [c] := by
  unfold sourceSpans glyph
  by_cases htab : c = '\t'
  · simp [htab, Span.blanks, List.flatMap_replicate]
  · by_cases hblank : Text.isBlank c
    · simp [htab, hblank]
    · have hspace : c ≠ ' ' := by rintro rfl; exact hblank (by decide)
      simp [htab, hblank, hspace]

theorem text_sourceLine (target : Nat) (line : List Char) :
    (sourceLine target (Text.trimEnd line)).flatMap Span.text = shownLine line := by
  rw [sourceLine, List.flatMap_assoc, shownLine]
  exact List.flatMap_congr fun x _ => text_sourceSpans target x.1 x.2

variable {d : Diagnostic} {source : String} {spot : Text.Spot}

theorem IsShown.isHeaded {report : String} (h : d.IsShown spot report) : d.IsHeaded spot report := by
  rw [IsShown, String.toList_append] at h
  exact (List.prefix_append _ _).trans h

theorem toList_headText (d : Diagnostic) (spot : Text.Spot) :
    (d.headText spot).toList = d.messageLine.toList ++
      (Span.blanks ((Nat.repr (spot.row + 1)).length + 2) ++ '╭' :: '─' :: '[' :: (d.file.toList ++
        ':' :: (Nat.toDigits 10 (spot.row + 1) ++
          ':' :: (Nat.toDigits 10 (spot.column + 1) ++ [']', '\n'])))) := by
  simp [headText, Nat.toList_repr]

/-- The head of a report tells its row and its column. -/
theorem eq_of_isHeaded {spot' : Text.Spot} {report : String} (h : d.IsHeaded spot report)
    (h' : d.IsHeaded spot' report) : spot.row = spot'.row ∧ spot.column = spot'.column := by
  obtain ⟨rest, hrest⟩ := h
  obtain ⟨rest', hrest'⟩ := h'
  have hcolon : ∀ r, Json.Stops (':' :: r) := Json.stops_cons (by decide)
  have hclose : ∀ r, Json.Stops (']' :: r) := Json.stops_cons (by decide)
  have hskip : ∀ (n : Nat) (r : List Char),
      (Span.blanks n ++ '╭' :: r).dropWhile (· == ' ') = '╭' :: r := by
    intro n r
    rw [List.dropWhile_append_of_pos fun c hc => by simp [List.eq_of_mem_replicate hc]]
    rfl
  have heq := hrest.trans hrest'.symm
  simp only [toList_headText, List.append_assoc, List.cons_append, List.append_cancel_left_eq] at heq
  -- how many blanks there are depends on the row, so they go before the places are compared
  have hplace := congrArg (List.dropWhile (· == ' ')) heq
  simp only [hskip, List.cons.injEq, true_and, List.append_cancel_left_eq] at hplace
  obtain ⟨hrow, hplace⟩ := Json.toDigits_append_inj (hcolon _) (hcolon _) hplace
  obtain ⟨hcolumn, -⟩ := Json.toDigits_append_inj (hclose _) (hclose _) (List.cons.inj hplace).2
  exact ⟨Nat.succ.inj hrow, Nat.succ.inj hcolumn⟩

/-- The report of a character shows its place. -/
theorem isShown_report
    (h : Text.spot? (d.target source) (Text.lines source.toList) = some spot) :
    d.IsShown spot (Span.render false (d.report source)) := by
  rw [IsShown, Span.toList_render_false, report]
  simp only [h, heading, placeLine, upperLine, excerpt, headText, messageLine, lineText, lineNumber,
    List.flatMap_append, text_sourceLine]
  simp [Span.plain, Span.frame, Span.newline]

/-- The report of the end of a text is headed by the place after its last character. -/
theorem isHeaded_report_end
    (hnone : Text.spot? (d.target source) (Text.lines source.toList) = none)
    (hlen : d.target source = source.length)
    (hend : Text.endSpot? (Text.lines source.toList) = some spot) :
    d.IsHeaded spot (Span.render false (d.report source)) := by
  rw [IsHeaded, Span.toList_render_false, report]
  simp only [hnone, if_pos hlen, hend, heading, placeLine, headText, messageLine, lineNumber]
  simp [Span.plain, Span.frame, Span.newline]

/-- A report is headed by no place but that of its index. -/
theorem index_of_isHeaded (h : d.IsHeaded spot (Span.render false (d.report source))) :
    spot.index (Text.lines source.toList) = d.target source := by
  have hsame : ∀ s, d.IsHeaded s (Span.render false (d.report source)) →
      spot.index (Text.lines source.toList) = s.index (Text.lines source.toList) := by
    intro s hs
    obtain ⟨hrow, hcolumn⟩ := eq_of_isHeaded h hs
    rw [Text.Spot.index, Text.Spot.index, hrow, hcolumn]
  cases hspot : Text.spot? (d.target source) (Text.lines source.toList) with
  | some s => rw [hsame s (isShown_report hspot).isHeaded, Text.index_of_spot? hspot]
  | none =>
    cases hend : if d.target source = source.length then
        Text.endSpot? (Text.lines source.toList) else none with
    | some s =>
      obtain ⟨hlen, hend⟩ := Option.ite_none_right_eq_some.mp hend
      rw [hsame s (isHeaded_report_end hspot hlen hend), Text.index_of_endSpot? hend,
        Text.flatten_lines, String.length_toList, hlen]
    | none =>
      -- only the message is written
      have hle := h.length_le
      rw [Span.toList_render_false, report, hspot] at hle
      simp only [hend] at hle
      simp [heading, headText, messageLine, Span.plain, Span.newline] at hle

/-! ### Offsets -/

/-- The break at the end of a line is not shown. -/
theorem shownLine_append {e : List Char} (he : ∀ x ∈ e, Text.isBreak x) (line : List Char) :
    shownLine (line ++ e) = shownLine line := by
  have htrim : Text.trimEnd (line ++ e) = Text.trimEnd line := by
    rw [Text.trimEnd, Text.trimEnd, List.reverse_append, List.dropWhile_append_of_pos]
    exact fun x hx => Text.isBlank_of_isBreak (he x (List.mem_reverse.mp hx))
  rw [shownLine, shownLine, htrim]

/-- An offset within the text is taken as it is. -/
theorem target_of_le (h : d.start.offset.toNat ≤ source.utf8ByteSize) :
    d.target source = d.start.offset.toNat :=
  Nat.min_eq_left h

section

variable {before after : List Char} {c : Char} (hs : source.toList = before ++ c :: after)
include hs

/-- The bytes before a character are bytes of the text. -/
theorem utf8ByteSize_before_le : (String.ofList before).utf8ByteSize ≤ source.utf8ByteSize :=
  Text.utf8ByteSize_le_of_prefix (hs ▸ List.prefix_append before (c :: after))

/-- The report shows the character whose index is the offset. -/
theorem isShown_of_index (hc : Text.isBreak c = false) (hk : d.start.offset.toNat = before.length) :
    d.IsShown (Text.placeBetween before c after) (Span.render false (d.report source)) := by
  have hle := (Text.length_le_utf8ByteSize before).trans (utf8ByteSize_before_le hs)
  have htarget : d.target source = before.length := (target_of_le (hk ▸ hle)).trans hk
  obtain ⟨e, he, hspot⟩ := Text.spot?_lines hc before after
  rw [← hs, ← htarget] at hspot
  have hshown := isShown_report hspot
  rw [IsShown, lineText, shownLine_append he] at hshown
  exact hshown

/-- The report of a character that starts at the offset is headed by its place exactly if the text
before it is ASCII. -/
theorem isHeaded_iff (hc : Text.isBreak c = false)
    (hoffset : d.start.offset.toNat = (String.ofList before).utf8ByteSize) :
    d.IsHeaded (Text.placeBetween before c after) (Span.render false (d.report source)) ↔
      ∀ x ∈ before, x.toNat < 128 := by
  rw [← Text.utf8ByteSize_eq_length_iff, ← hoffset]
  constructor
  · intro h
    have hindex := index_of_isHeaded h
    obtain ⟨e, -, hspot⟩ := Text.spot?_lines hc before after
    have hplace := Text.index_of_spot? hspot
    rw [← hs] at hplace
    have htarget := target_of_le (hoffset ▸ utf8ByteSize_before_le hs)
    exact htarget.symm.trans (hindex.symm.trans hplace)
  · exact fun h => (isShown_of_index hs hc h).isHeaded

end

/-- Beyond the last character there is nothing to show. -/
theorem render_report_of_lt (h : source.length < d.target source) :
    Span.render false (d.report source) = d.messageLine := by
  have hspot : Text.spot? (d.target source) (Text.lines source.toList) = none := by
    rw [← Option.not_isSome_iff_eq_none, Text.isSome_spot?, Text.flatten_lines,
      String.length_toList]
    omega
  rw [← String.toList_inj, Span.toList_render_false, report]
  simp only [hspot, if_neg (Nat.ne_of_gt h), heading, messageLine]
  simp [Span.plain, Span.newline]

end Diagnostic

namespace Diagnostics

/-- The reports of diagnostics stand one behind the other. -/
theorem render_append (ds ds' : List Diagnostic) (sources : List (String × String)) (color : Bool) :
    render ⟨ds ++ ds'⟩ sources color = render ⟨ds⟩ sources color ++ render ⟨ds'⟩ sources color := by
  simp only [render, List.flatMap_append, Span.render_append]

theorem render_singleton {sources : List (String × String)} {d : Diagnostic} {source : String}
    (h : sources.lookup d.file = some source) (color : Bool) :
    render ⟨[d]⟩ sources color = Span.render color (d.report source) := by
  simp [render, h]

/-- The report of a diagnostic whose offset is where a character starts is headed by the line and the
column of this character, and shows its line, exactly if the text before it is ASCII. What it shows is
the character whose index is the offset; beyond the last character it shows none. -/
theorem render_place {ds : Diagnostics} {sources : List (String × String)}
    {earlier later : List Diagnostic} {d : Diagnostic} {source : String} {before after : List Char}
    {c : Char} (hds : ds.toList = earlier ++ d :: later) (hsource : sources.lookup d.file = some source)
    (hs : source.toList = before ++ c :: after) (hc : Text.isBreak c = false)
    (hoffset : d.start.offset.toNat = (String.ofList before).utf8ByteSize) :
    ∃ report, ds.render sources false =
        render ⟨earlier⟩ sources false ++ report ++ render ⟨later⟩ sources false ∧
      (d.IsHeaded (Text.placeBetween before c after) report ↔ ∀ x ∈ before, x.toNat < 128) ∧
      ((∀ x ∈ before, x.toNat < 128) → d.IsShown (Text.placeBetween before c after) report) ∧
      (∀ before' c' after', source.toList = before' ++ c' :: after' → Text.isBreak c' = false →
        d.start.offset.toNat = before'.length →
        d.IsShown (Text.placeBetween before' c' after') report) ∧
      (source.length < d.start.offset.toNat → report = d.messageLine) := by
  have hall : ds = ⟨earlier ++ ([d] ++ later)⟩ := congrArg Diagnostics.mk hds
  refine ⟨Span.render false (d.report source), ?_, d.isHeaded_iff hs hc hoffset, fun hascii => ?_,
    fun before' c' after' hs' hc' hk => d.isShown_of_index hs' hc' hk, fun hlt => ?_⟩
  · rw [hall, render_append, render_append, render_singleton hsource, String.append_assoc]
  · refine Diagnostic.isShown_of_index hs hc ?_
    rw [hoffset, Text.utf8ByteSize_eq_length_iff.mpr hascii]
  · have hle := hoffset ▸ Diagnostic.utf8ByteSize_before_le hs
    exact Diagnostic.render_report_of_lt (Diagnostic.target_of_le hle ▸ hlt)

/-- The character at the offset stands behind a break of two characters and a tab, and before a
character of two bytes. -/
def indented : Diagnostic := ⟨"main.kn", ⟨2, 2, 5⟩, "undefined function: 'c'"⟩

theorem indented_place : ∃ report,
    render ⟨[indented]⟩ [("main.kn", "ab\r\n\tcé\n")] false = report ∧
      indented.IsHeaded ⟨1, 1, "\tcé".toList⟩ report ∧ indented.IsShown ⟨1, 1, "\tcé".toList⟩ report := by
  have hds : (⟨[indented]⟩ : Diagnostics).toList = [] ++ indented :: [] := rfl
  have hsource : [("main.kn", "ab\r\n\tcé\n")].lookup indented.file = some "ab\r\n\tcé\n" := rfl
  have hs : "ab\r\n\tcé\n".toList = "ab\r\n\t".toList ++ 'c' :: "é\n".toList := by decide
  have hascii : ∀ x ∈ "ab\r\n\t".toList, x.toNat < 128 := by simp
  have hplace : Text.placeBetween "ab\r\n\t".toList 'c' "é\n".toList = ⟨1, 1, "\tcé".toList⟩ := by
    rw [Text.placeBetween, Text.Spot.mk.injEq]
    decide
  obtain ⟨report, hrender, hheaded, hshown, -⟩ :=
    render_place hds hsource hs (by decide) (by decide)
  rw [hplace] at hheaded hshown
  refine ⟨report, ?_, hheaded.mpr hascii, hshown hascii⟩
  have hnil : render ⟨[]⟩ [("main.kn", "ab\r\n\tcé\n")] false = "" := rfl
  rw [hrender, hnil, String.empty_append, String.append_empty]

/-- The character at the offset stands behind a character of two bytes. -/
def accented : Diagnostic := ⟨"main.kn", ⟨2, 14, 19⟩, "invalid type name: 'i33'"⟩

/-- The report points one character too far. -/
theorem accented_misplaced :
    "// é\nfn main() -> i33 { }\n".toList =
      "// é\nfn main() -> ".toList ++ 'i' :: "33 { }\n".toList ∧ Text.isBreak 'i' = false ∧
    accented.start.offset.toNat = (String.ofList "// é\nfn main() -> ".toList).utf8ByteSize ∧
    Text.placeBetween "// é\nfn main() -> ".toList 'i' "33 { }\n".toList =
      ⟨1, 13, "fn main() -> i33 { }".toList⟩ ∧
    ¬ accented.IsHeaded ⟨1, 13, "fn main() -> i33 { }".toList⟩
      (render ⟨[accented]⟩ [("main.kn", "// é\nfn main() -> i33 { }\n")] false) ∧
    accented.IsShown ⟨1, 14, "fn main() -> i33 { }".toList⟩
      (render ⟨[accented]⟩ [("main.kn", "// é\nfn main() -> i33 { }\n")] false) := by
  have hsource : [("main.kn", "// é\nfn main() -> i33 { }\n")].lookup accented.file =
      some "// é\nfn main() -> i33 { }\n" := rfl
  have hs : "// é\nfn main() -> i33 { }\n".toList =
      "// é\nfn main() -> ".toList ++ 'i' :: "33 { }\n".toList := by decide
  have hs' : "// é\nfn main() -> i33 { }\n".toList =
      "// é\nfn main() -> i".toList ++ '3' :: "3 { }\n".toList := by decide
  have hplace : Text.placeBetween "// é\nfn main() -> ".toList 'i' "33 { }\n".toList =
      ⟨1, 13, "fn main() -> i33 { }".toList⟩ := by
    rw [Text.placeBetween, Text.Spot.mk.injEq]
    decide
  have hplace' : Text.placeBetween "// é\nfn main() -> i".toList '3' "3 { }\n".toList =
      ⟨1, 14, "fn main() -> i33 { }".toList⟩ := by
    rw [Text.placeBetween, Text.Spot.mk.injEq]
    decide
  refine ⟨hs, by decide, by decide, hplace, ?_, ?_⟩
  · rw [render_singleton hsource, ← hplace, Diagnostic.isHeaded_iff hs (by decide) (by decide)]
    intro hascii
    exact absurd (hascii 'é' (by decide)) (by decide)
  · rw [render_singleton hsource, ← hplace']
    exact Diagnostic.isShown_of_index hs' (by decide) (by decide)

end Diagnostics

end Sema
