/-!
JSON values and their two written forms: one without blanks, and one with a line for each item and
two blanks for each level. In a string only the quote, the backslash and the characters below
U+0020 are escaped.
-/

namespace Sema

/-- A JSON value whose numbers are natural. The members of an object keep their order. -/
inductive Json where
  | null
  | bool (value : Bool)
  | natural (value : Nat)
  | string (text : String)
  | array (items : List Json)
  | object (members : List (String × Json))

namespace Json

/-- The JSON null stands for what is absent. -/
def ofOption {α : Type} (f : α → Json) : Option α → Json
  | none => .null
  | some x => f x

/-! ### Strings -/

/-- A control character that has no short escape. -/
def escapeControl (c : Char) : List Char :=
  ['\\', 'u', '0', '0', Nat.digitChar (c.toNat / 16), Nat.digitChar (c.toNat % 16)]

/-- A character as it stands in a string. -/
def escape (c : Char) : List Char :=
  if c = '"' then ['\\', '"']
  else if c = '\\' then ['\\', '\\']
  else if c = '\x08' then ['\\', 'b']
  else if c = '\t' then ['\\', 't']
  else if c = '\n' then ['\\', 'n']
  else if c = '\x0c' then ['\\', 'f']
  else if c = '\r' then ['\\', 'r']
  else if c.toNat < 32 then escapeControl c
  else [c]

/-- Writes a string in front of `rest`. -/
def writeString (s : String) (rest : List Char) : List Char :=
  '"' :: s.toList.foldr (fun c r => escape c ++ r) ('"' :: rest)

/-! ### The short form -/

mutual

/-- Writes a value in front of `rest`. -/
def write : Json → List Char → List Char
  | .null, rest => 'n' :: 'u' :: 'l' :: 'l' :: rest
  | .bool true, rest => 't' :: 'r' :: 'u' :: 'e' :: rest
  | .bool false, rest => 'f' :: 'a' :: 'l' :: 's' :: 'e' :: rest
  | .natural n, rest => Nat.toDigits 10 n ++ rest
  | .string s, rest => writeString s rest
  | .array [], rest => '[' :: ']' :: rest
  | .array (v :: vs), rest => '[' :: write v (writeItems vs rest)
  | .object [], rest => '\x7b' :: '\x7d' :: rest
  | .object ((k, v) :: ms), rest =>
      '\x7b' :: writeString k (':' :: write v (writeMembers ms rest))

/-- Writes the items after the first, and the end of the array. -/
def writeItems : List Json → List Char → List Char
  | [], rest => ']' :: rest
  | v :: vs, rest => ',' :: write v (writeItems vs rest)

/-- Writes the members after the first, and the end of the object. -/
def writeMembers : List (String × Json) → List Char → List Char
  | [], rest => '\x7d' :: rest
  | (k, v) :: ms, rest => ',' :: writeString k (':' :: write v (writeMembers ms rest))

end

/-- The written form without blanks. -/
def compact (v : Json) : String := String.ofList (v.write [])

/-! ### The form in lines -/

/-- A line break, and the blanks of level `n`. -/
def newline (n : Nat) (rest : List Char) : List Char := '\n' :: (List.replicate (2 * n) ' ' ++ rest)

mutual

/-- Writes a value that begins at level `n` in front of `rest`. -/
def writeLines (n : Nat) : Json → List Char → List Char
  | .array (v :: vs), rest =>
      '[' :: newline (n + 1) (writeLines (n + 1) v (writeItemLines n vs rest))
  | .object ((k, v) :: ms), rest =>
      '\x7b' :: newline (n + 1)
        (writeString k (':' :: ' ' :: writeLines (n + 1) v (writeMemberLines n ms rest)))
  | .null, rest => write .null rest
  | .bool b, rest => write (.bool b) rest
  | .natural k, rest => write (.natural k) rest
  | .string s, rest => write (.string s) rest
  | .array [], rest => write (.array []) rest
  | .object [], rest => write (.object []) rest

def writeItemLines (n : Nat) : List Json → List Char → List Char
  | [], rest => newline n (']' :: rest)
  | v :: vs, rest => ',' :: newline (n + 1) (writeLines (n + 1) v (writeItemLines n vs rest))

def writeMemberLines (n : Nat) : List (String × Json) → List Char → List Char
  | [], rest => newline n ('\x7d' :: rest)
  | (k, v) :: ms, rest =>
      ',' :: newline (n + 1)
        (writeString k (':' :: ' ' :: writeLines (n + 1) v (writeMemberLines n ms rest)))

end

/-- The written form in lines. -/
def pretty (v : Json) : String := String.ofList (v.writeLines 0 [])

end Json

end Sema
