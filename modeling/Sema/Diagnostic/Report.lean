import Sema.Diagnostic
import Sema.Text.Line
import Sema.Text.Width

/-!
Reports: a diagnostic together with the source line it is about. A frame holds the place, the line
and below it an arrow from the faulty character to the message. A report is a list of spans, which
is printed with or without colors.

The byte offset of a diagnostic is taken as the index of a character, as far as the file has bytes.
-/

namespace Sema

/-- What a span of a report is; each kind has its color. -/
inductive Ink where
  | plain
  /-- The arrow and what it points at. -/
  | accent
  | frame
  /-- The part of the frame beside the arrow. -/
  | margin
  | source
deriving DecidableEq

/-- The parameters that switch the color on in a terminal. -/
def Ink.color? : Ink → Option String
  | .plain => none
  | .accent => some "31"
  | .frame => some "38;5;246"
  | .margin => some "38;5;240"
  | .source => some "38;5;249"

/-- A stretch of a report in one color. -/
structure Span where
  ink : Ink
  text : List Char
deriving DecidableEq

namespace Span

def plain (s : String) : Span := ⟨.plain, s.toList⟩

def frame (s : String) : Span := ⟨.frame, s.toList⟩

def newline : Span := ⟨.plain, ['\n']⟩

def blanks (n : Nat) : List Char := List.replicate n ' '

/-- A span as a terminal shows it in color. -/
def colored (s : Span) : List Char :=
  match s.ink.color? with
  | some parameters =>
      '\x1b' :: '[' :: parameters.toList ++ 'm' :: s.text ++ ['\x1b', '[', '0', 'm']
  | none => s.text

/-- The written form of spans. -/
def render (color : Bool) (spans : List Span) : String :=
  String.ofList (spans.flatMap fun s => if color then s.colored else s.text)

end Span

namespace Diagnostic

/-! ### The source line -/

/-- The distance of tab stops. -/
def tabWidth : Nat := 4

/-- How a character is shown in a column: blanks are shown as spaces, and a tab goes on to the next
tab stop. -/
def glyph (column : Nat) (c : Char) : Char × Nat :=
  if c = '\t' then (' ', tabWidth - column % tabWidth)
  else if Text.isBlank c then (' ', 1)
  else (c, Text.cells c)

/-- The cells that a column takes. Columns beyond the end of the line take one. -/
def columnCells (shown : List Char) (column : Nat) : Nat :=
  match shown[column]? with
  | some c => (glyph column c).2
  | none => 1

/-- One character of the source line, where the arrow is at column `target`. -/
def sourceSpans (target : Nat) (c : Char) (column : Nat) : List Span :=
  let ink := if column = target then Ink.accent else Ink.source
  let (shape, width) := glyph column c
  if shape = ' ' then List.replicate width ⟨ink, [' ']⟩ else [⟨ink, [shape]⟩]

def sourceLine (target : Nat) (shown : List Char) : List Span :=
  shown.zipIdx.flatMap fun (c, column) => sourceSpans target c column

/-! ### The arrow -/

/-- How many columns the arrow goes on to the right. -/
def arrowReach : Nat := 2

def stroke (c : Char) : Span := ⟨.accent, [c]⟩

/-- A corner and then a line, over some cells. -/
def strokes (corner : Char) : Nat → List Span
  | 0 => []
  | n + 1 => stroke corner :: List.replicate n (stroke '─')

/-- The line below the source line, with the head of the arrow. -/
def arrowHead (target : Nat) (shown : List Char) : List Span :=
  (List.range (target + arrowReach + 1)).flatMap fun column =>
    let width := columnCells shown column
    if column = target then strokes '┬' width else [⟨.plain, Span.blanks width⟩]

/-- The line below that, with the shaft of the arrow. -/
def arrowShaft (target : Nat) (shown : List Char) : List Span :=
  (List.range (target + arrowReach + 1)).flatMap fun column =>
    let width := columnCells shown column
    if column < target then [⟨.plain, Span.blanks width⟩]
    else if column = target then strokes '╰' width
    else strokes '─' width

/-! ### The report -/

/-- The digits of a line number; the frame is as wide as they are, with a cell on either side. -/
def lineNumber (spot : Text.Spot) : String := Nat.repr (spot.row + 1)

/-- The place, at the top of the frame. -/
def placeLine (file : String) (spot : Text.Spot) : List Span :=
  let place := file ++ ":" ++ lineNumber spot ++ ":" ++ Nat.repr (spot.column + 1)
  [⟨.plain, Span.blanks ((lineNumber spot).length + 2)⟩, .frame "╭", .frame "─", .frame "[",
    .plain place, .frame "]", .newline]

/-- The line under the place. -/
def upperLine (width : Nat) : List Span :=
  [⟨.plain, Span.blanks (width + 2)⟩, .frame "│", .newline]

/-- The part of the frame beside the arrow. -/
def arrowMargin (width : Nat) : List Span :=
  [.plain " ", ⟨.margin, Span.blanks (width + 1) ++ ['│']⟩, .plain " "]

def lowerLine (width : Nat) : List Span :=
  [⟨.frame, List.replicate (width + 2) '─' ++ ['╯']⟩, .newline]

/-- The frame around the source line and the arrow. -/
def excerpt (spot : Text.Spot) (message : String) : List Span :=
  let shown := Text.trimEnd spot.line
  let number := lineNumber spot
  [.plain " ", .frame (number ++ " │"), .plain " "] ++ sourceLine spot.column shown ++ [.newline]
    ++ arrowMargin number.length ++ arrowHead spot.column shown ++ [.newline]
    ++ arrowMargin number.length ++ arrowShaft spot.column shown
    ++ [.plain (" " ++ message), .newline]

/-- The heading of a report. -/
def heading (d : Diagnostic) : List Span :=
  [⟨.accent, "Error:".toList⟩, .plain (" " ++ d.message), .newline]

/-- The index of the character that a diagnostic points at. -/
def target (d : Diagnostic) (source : String) : Nat := min d.start.offset.toNat source.utf8ByteSize

/-- The report of a diagnostic in the text of its file. At the end of the file there is no character
to point at, and beyond it no place to show. -/
def report (d : Diagnostic) (source : String) : List Span :=
  let lines := Text.lines source.toList
  let k := d.target source
  match Text.spot? k lines with
  | some spot =>
      let width := (lineNumber spot).length
      d.heading ++ placeLine d.file spot ++ upperLine width ++ excerpt spot d.message
        ++ lowerLine width
  | none =>
      match if k = source.length then Text.endSpot? lines else none with
      | some spot =>
          let width := (lineNumber spot).length
          d.heading ++ placeLine d.file spot ++ upperLine width
            ++ arrowMargin width ++ [.newline] ++ lowerLine width
      | none => d.heading

end Diagnostic

namespace Diagnostics

/-- Shows all diagnostics, each in the text of its file where `sources` has it and else in its
one-line form. -/
def render (ds : Diagnostics) (sources : List (String × String)) (color : Bool) : String :=
  Span.render color (ds.toList.flatMap fun d =>
    match sources.lookup d.file with
    | some source => d.report source
    | none => [.plain d.render, .newline])

end Diagnostics

end Sema
