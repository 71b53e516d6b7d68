import Sema.Toml.Scalar

/-!
TOML strings, in single or double quotes, of one or of several lines. Each function reads the text
after the opening quotes and gives the content of the string, last character first, and what follows
the closing quotes.
-/

namespace Sema.Toml

/-- Characters that may stand in strings and comments: all but control characters; tabs are
allowed. -/
def isText (c : Char) : Bool := c = '\t' || 32 ≤ c.toNat && c.toNat ≠ 127

def isBlank (c : Char) : Bool := c = ' ' || c = '\t'

def dropBlanks (s : List Char) : List Char := s.dropWhile isBlank

/-- What follows the line break that a text begins with. -/
def newline? : List Char → Option (List Char)
  | '\n' :: r => some r
  | '\r' :: '\n' :: r => some r
  | _ => none

/-- The character with a code point of hexadecimal digits. -/
def scalar? (ds : List Char) : Option Char :=
  let n := valueIn 16 ds
  if ds.all isHexDigit ∧ (n < 0xD800 ∨ 0xDFFF < n ∧ n < 0x110000) then some (Char.ofNat n)
  else none

/-- The character of an escape that is a single letter. -/
def escape? (c : Char) : Option Char :=
  if c = 'b' then some '\x08'
  else if c = 't' then some '\t'
  else if c = 'n' then some '\n'
  else if c = 'f' then some '\x0c'
  else if c = 'r' then some '\r'
  else if c = '"' then some '"'
  else if c = '\\' then some '\\'
  else none

abbrev Quoted := Option (List Char × List Char)

/-- A string in single quotes, which has no escapes. -/
def literal (acc : List Char) : List Char → Quoted
  | [] => none
  | '\'' :: r => some (acc, r)
  | c :: r => if isText c then literal (c :: acc) r else none

/-- A string in double quotes. -/
def basic (acc : List Char) : List Char → Quoted
  | [] => none
  | '"' :: r => some (acc, r)
  | '\\' :: 'u' :: a :: b :: c :: d :: r =>
      match scalar? [a, b, c, d] with
      | some x => basic (x :: acc) r
      | none => none
  | '\\' :: 'U' :: a :: b :: c :: d :: e :: f :: g :: h :: r =>
      match scalar? [a, b, c, d, e, f, g, h] with
      | some x => basic (x :: acc) r
      | none => none
  | '\\' :: c :: r =>
      match escape? c with
      | some x => basic (x :: acc) r
      | none => none
  | c :: r => if isText c ∧ c ≠ '\\' then basic (c :: acc) r else none

/-- A string of several lines in single quotes. One or two quotes may stand in front of the closing
three. -/
def multilineLiteral (acc : List Char) : List Char → Quoted
  | [] => none
  | '\'' :: '\'' :: '\'' :: '\'' :: '\'' :: r => some ('\'' :: '\'' :: acc, r)
  | '\'' :: '\'' :: '\'' :: '\'' :: r => some ('\'' :: acc, r)
  | '\'' :: '\'' :: '\'' :: r => some (acc, r)
  | '\r' :: '\n' :: r => multilineLiteral ('\n' :: acc) r
  | c :: r => if isText c ∨ c = '\n' then multilineLiteral (c :: acc) r else none

/-- A string of several lines in double quotes. A backslash at the end of a line takes with it all
blanks and line breaks up to the next character; `skipping` tells that they are being left out. -/
def multilineBasic (skipping : Bool) (acc : List Char) : List Char → Quoted
  | [] => none
  | '"' :: '"' :: '"' :: '"' :: '"' :: r => some ('"' :: '"' :: acc, r)
  | '"' :: '"' :: '"' :: '"' :: r => some ('"' :: acc, r)
  | '"' :: '"' :: '"' :: r => some (acc, r)
  | '\r' :: '\n' :: r => multilineBasic skipping (if skipping then acc else '\n' :: acc) r
  | '\n' :: r => multilineBasic skipping (if skipping then acc else '\n' :: acc) r
  | '\\' :: 'u' :: a :: b :: c :: d :: r =>
      match scalar? [a, b, c, d] with
      | some x => multilineBasic false (x :: acc) r
      | none => none
  | '\\' :: 'U' :: a :: b :: c :: d :: e :: f :: g :: h :: r =>
      match scalar? [a, b, c, d, e, f, g, h] with
      | some x => multilineBasic false (x :: acc) r
      | none => none
  | '\\' :: c :: r =>
      if (newline? (dropBlanks (c :: r))).isSome then multilineBasic true acc (c :: r)
      else
        match escape? c with
        | some x => multilineBasic false (x :: acc) r
        | none => none
  | c :: r =>
      if skipping ∧ isBlank c then multilineBasic true acc r
      else if isText c ∧ c ≠ '\\' then multilineBasic false (c :: acc) r
      else none

/-- Leaves out the line break right after the opening quotes. -/
def dropFirstNewline (s : List Char) : List Char := (newline? s).getD s

/-- A string of one line: its content, and what follows. -/
def quotedLine? (s : List Char) : Quoted :=
  match s with
  | '"' :: r => (basic [] r).map fun (cs, rest) => (cs.reverse, rest)
  | '\'' :: r => (literal [] r).map fun (cs, rest) => (cs.reverse, rest)
  | _ => none

/-- A string of any form: its content, and what follows. -/
def quoted? (s : List Char) : Quoted :=
  match s with
  | '"' :: '"' :: '"' :: r =>
      (multilineBasic false [] (dropFirstNewline r)).map fun (cs, rest) => (cs.reverse, rest)
  | '\'' :: '\'' :: '\'' :: r =>
      (multilineLiteral [] (dropFirstNewline r)).map fun (cs, rest) => (cs.reverse, rest)
  | s => quotedLine? s

end Sema.Toml
