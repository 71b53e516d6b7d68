import Sema.Toml.Item
import Sema.Toml.Quoted

/-!
Reading TOML documents. A document may begin with a byte order mark. Arrays and inline tables may be
nested up to 79 deep, and a key may have up to 79 parts.
-/

namespace Sema.Toml

/-- How deep values may be nested, and how many parts a key may have. -/
def maxDepth : Nat := 79

/-- A reader takes something off the start of a text, if it is there. -/
abbrev Reader (α : Type) := List Char → Option (α × List Char)

/-! ### Keys -/

def isBare (c : Char) : Bool := c.isAlphanum || c = '-' || c = '_'

/-- One part of a key: bare or quoted. -/
def keyPart : Reader String := fun s =>
  match s with
  | '"' :: _ | '\'' :: _ => (quotedLine? s).map fun (cs, rest) => (String.ofList cs, rest)
  | s =>
    match s.takeWhile isBare with
    | [] => none
    | cs => some (String.ofList cs, s.dropWhile isBare)

/-- The parts of a key between dots, of which there may be `n`. -/
def keyParts : Nat → Reader (List String)
  | 0, _ => none
  | n + 1, s => do
      let (part, rest) ← keyPart (dropBlanks s)
      match dropBlanks rest with
      | '.' :: rest => do
          let (parts, rest) ← keyParts n rest
          return (part :: parts, rest)
      | rest => return ([part], rest)

/-- A key: what stands in front of its last dot, and its last part. -/
def key : Reader (List String × String) := fun s => do
  let (parts, rest) ← keyParts maxDepth s
  return ((parts.dropLast, ← parts.getLast?), rest)

/-! ### Values -/

/-- Leaves out blanks, line breaks and comments. A comment ends with its line. -/
def dropTrivia (inComment : Bool) : List Char → List Char
  | [] => []
  | '\n' :: r => dropTrivia false r
  | '\r' :: '\n' :: r => dropTrivia false r
  | '#' :: r => dropTrivia true r
  | c :: r =>
    if inComment && isText c || isBlank c then dropTrivia inComment r
    else c :: r

/-- The items of an array after its opening bracket, each with the comma that follows it. -/
def arrayItems (value : Reader Item) (acc : List Item) (s : List Char) :
    Option (List Item × List Char) :=
  match dropTrivia false s with
  | ']' :: rest => some (acc.reverse, rest)
  | s' =>
    match value s' with
    | none => none
    | some (item, rest) =>
      match dropTrivia false rest with
      | ']' :: rest => some ((item :: acc).reverse, rest)
      | ',' :: rest =>
        if rest.length < s.length then arrayItems value (item :: acc) rest else none
      | _ => none
termination_by s.length

/-- The key and the value of an entry. Between them stand only blanks. -/
def entry (value : Reader Item) : Reader KeyValue := fun s => do
  let ((path, name), rest) ← key s
  match dropBlanks rest with
  | '=' :: rest => do
      let (item, rest) ← value (dropBlanks rest)
      return (⟨path, name, item⟩, dropBlanks rest)
  | _ => none

/-- The entries of an inline table up to its closing brace. -/
def inlineEntries (value : Reader Item) (acc : List KeyValue) (s : List Char) :
    Option (List KeyValue × List Char) :=
  match entry value s with
  | none => none
  | some (kv, rest) =>
    match rest with
    | '\x7d' :: rest => some ((kv :: acc).reverse, rest)
    | ',' :: rest =>
      if rest.length < s.length then inlineEntries value (kv :: acc) rest else none
    | _ => none
termination_by s.length

/-- An inline table after its opening brace. -/
def inlineTable (value : Reader Item) : Reader Item := fun s =>
  match dropBlanks s with
  | '\x7d' :: rest => some (.table .inline [], rest)
  | _ => do
      let (kvs, rest) ← inlineEntries value [] s
      return (.table .inline (← Entries.addAll [] kvs), rest)

/-- Whether a character may stand in a number or a date. -/
def isScalarChar (c : Char) : Bool :=
  c.isAlphanum || c = '+' || c = '-' || c = '_' || c = '.' || c = ':'

/-- A number, a truth value or a date. A blank may stand between a date and a time. -/
def scalar : Reader Item := fun s =>
  let word := s.takeWhile isScalarChar
  let rest := s.dropWhile isScalarChar
  if isDate word then
    match rest with
    | ' ' :: r =>
      if isTime true (r.takeWhile isScalarChar) then some (.scalar, r.dropWhile isScalarChar)
      else some (.scalar, rest)
    | _ => some (.scalar, rest)
  else if isScalar word then some (.scalar, rest)
  else none

/-- A value, in which arrays and inline tables are nested at most `depth` deep. -/
def value : Nat → Reader Item
  | depth, '[' :: r =>
    match depth with
    | 0 => none
    | depth + 1 => (arrayItems (value depth) [] r).map fun (items, rest) => (.array items, rest)
  | depth, '\x7b' :: r =>
    match depth with
    | 0 => none
    | depth + 1 => inlineTable (value depth) r
  | _, '"' :: r => (quoted? ('"' :: r)).map fun (cs, rest) => (.string (String.ofList cs), rest)
  | _, '\'' :: r => (quoted? ('\'' :: r)).map fun (cs, rest) => (.string (String.ofList cs), rest)
  | _, s => scalar s

/-! ### Lines -/

/-- What follows the end of a line, in front of which blanks and a comment may stand. -/
def lineEnd? (s : List Char) : Option (List Char) :=
  let s :=
    match dropBlanks s with
    | '#' :: r => r.dropWhile isText
    | s => s
  match s with
  | [] => some []
  | s => newline? s

/-- A header after its opening brackets. -/
def header (isElement : Bool) : Reader Section := fun s => do
  let ((path, name), rest) ← key s
  let rest ←
    match isElement, rest with
    | true, ']' :: ']' :: rest => lineEnd? rest
    | false, ']' :: rest => lineEnd? rest
    | _, _ => none
  return (⟨isElement, path, name, []⟩, rest)

/-- A line of a document. -/
inductive Line where
  | blank
  | header (s : Section)
  | entry (kv : KeyValue)

def line : Reader Line := fun s =>
  match dropBlanks s with
  | '[' :: '[' :: r => (header true r).map fun (h, rest) => (.header h, rest)
  | '[' :: r => (header false r).map fun (h, rest) => (.header h, rest)
  | '#' :: r => (lineEnd? ('#' :: r)).map (.blank, ·)
  | '\r' :: r => (newline? ('\r' :: r)).map (.blank, ·)
  | '\n' :: r => some (.blank, r)
  | s => do
      let (kv, rest) ← entry (value maxDepth) s
      return (.entry kv, ← lineEnd? rest)

/-- The lines of a text. -/
def lines (acc : List Line) (s : List Char) : Option (List Line) :=
  if dropBlanks s = [] then some acc.reverse
  else
    match line s with
    | none => none
    | some (l, rest) =>
      if rest.length < s.length then lines (l :: acc) rest else none
termination_by s.length

/-! ### Documents -/

/-- A document while its lines are gathered: the values in front of all headers, and the sections,
the latest first. -/
structure Outline where
  values : List KeyValue
  sections : List Section

/-- Puts a line where it belongs. -/
def Outline.put (o : Outline) : Line → Outline
  | .blank => o
  | .header s => { o with sections := s :: o.sections }
  | .entry kv =>
    match o.sections with
    | [] => { o with values := kv :: o.values }
    | s :: rest => { o with sections := { s with values := kv :: s.values } :: rest }

/-- The lines under their headers, all in order. -/
def Outline.ofLines (ls : List Line) : Outline :=
  let o := ls.foldl Outline.put ⟨[], []⟩
  ⟨o.values.reverse, (o.sections.map fun s => { s with values := s.values.reverse }).reverse⟩

/-- Reads a document as the entries of its root table. -/
def Entries.ofText? (text : String) : Option Entries := do
  let s :=
    match text.toList with
    | '\uFEFF' :: r => r
    | s => s
  let o := Outline.ofLines (← lines [] s)
  o.sections.foldlM Entries.addSection (← Entries.addAll [] o.values)

end Sema.Toml
