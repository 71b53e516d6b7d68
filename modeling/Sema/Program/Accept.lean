import Sema.Program.Decode

/-!
The first fault of a program text, and with it the reading of programs from texts.

A check walks through a reading from left to right and stops at the first fault. It is told how many
more arrays and objects may be opened; a text may have 127 of them open at once.
-/

namespace Sema

open Json (Document Halt Reading)

namespace DecodeError

/-- Checks a reading, given how many arrays and objects may still be opened. -/
abbrev Check := Nat → Reading → Except DecodeError Unit

/-- Stops where the text breaks off. -/
def stopNeeded : Option Halt → Except DecodeError Unit
  | none => .ok ()
  | some h => .error (ofFault h.needed)

/-- The fault of a value of the wrong form. It is read as far as it is a single token, so a fault of
the token comes first. -/
def refusal : Reading → DecodeError
  | .number (.other false) => .malformed
  | .string none => .malformed
  | .broken h => ofFault h.needed
  | _ => .mismatch

/-- Skips a value. Only where the text breaks off inside of it is there a fault. -/
def skip : Reading → Except DecodeError Unit
  | .broken h => .error (ofFault h.skipped)
  | .array _ (some h) => .error (ofFault h.skipped)
  | .object _ (some h) => .error (ofFault h.skipped)
  | _ => .ok ()

/-! ### Any value -/

mutual

/-- Reads a value of any form as a whole. -/
def whole : Check
  | _, .null => .ok ()
  | _, .bool _ => .ok ()
  | _, .number (.natural _) => .ok ()
  | _, .number (.other inRange) => if inRange then .ok () else .error .malformed
  | _, .string (some _) => .ok ()
  | _, .string none => .error .malformed
  | _, .broken h => .error (ofFault h.needed)
  | 0, .array .. => .error .malformed
  | room + 1, .array items stop => do
      wholeItems room items
      stopNeeded stop
  | 0, .object .. => .error .malformed
  | room + 1, .object members stop => do
      wholeMembers room members
      stopNeeded stop

def wholeItems : Nat → List Reading → Except DecodeError Unit
  | _, [] => .ok ()
  | room, r :: rest => do
      whole room r
      wholeItems room rest

def wholeMembers : Nat → List (Option String × Reading) → Except DecodeError Unit
  | _, [] => .ok ()
  | _, (none, _) :: _ => .error .malformed
  | room, (some _, r) :: rest => do
      whole room r
      wholeMembers room rest

end

/-! ### Single values -/

/-- Accepts natural numbers below `bound`. -/
def number (bound : Nat) : Check
  | _, .number (.natural n) => if n.toNat < bound then .ok () else .error .mismatch
  | _, r => .error (refusal r)

def text : Check
  | _, .string (some _) => .ok ()
  | _, r => .error (refusal r)

/-- Accepts one of the given words. -/
def word (words : List String) (r : Reading) : Except DecodeError Unit :=
  match r with
  | .string (some s) => if words.contains s then .ok () else .error .mismatch
  | r => .error (refusal r)

/-! ### Arrays and records -/

/-- Accepts arrays of what `item` accepts. -/
def list (item : Check) : Check
  | 0, .array .. => .error .malformed
  | room + 1, .array items stop => do
      items.forM (item room)
      stopNeeded stop
  | _, r => .error (refusal r)

/-- A field of a record: what its value has to be, and whether it has to be given. -/
structure Field where
  name : String
  value : Check
  required : Bool

/-- Checks the members of an object; `seen` are the names of the fields in front of them. -/
def members (fields : List Field) (room : Nat) (seen : List String) :
    List (Option String × Reading) → Except DecodeError (List String)
  | [] => .ok seen
  | (none, _) :: _ => .error .malformed
  | (some key, r) :: rest =>
      match fields.find? (·.name == key) with
      | some f =>
          if seen.contains key then .error .mismatch
          else do
            f.value room r
            members fields room (key :: seen) rest
      | none => do
          skip r
          members fields room seen rest

/-- Checks the items of a record that is written as an array. -/
def items (room : Nat) (stop : Option Halt) : List Field → List Reading → Except DecodeError Unit
  | [], [] => stopNeeded stop
  | [], _ :: _ => .error .malformed
  | f :: rest, [] => do
      stopNeeded stop
      if (f :: rest).any (·.required) then
        throw .mismatch
  | f :: fields, r :: rest => do
      f.value room r
      items room stop fields rest

/-- Accepts records with the given fields. -/
def record (fields : List Field) : Check
  | 0, .object .. => .error .malformed
  | room + 1, .object ms stop => do
      let seen ← members fields room [] ms
      stopNeeded stop
      if fields.any fun f => f.required && !seen.contains f.name then
        throw .mismatch
  | 0, .array .. => .error .malformed
  | room + 1, .array rs stop => items room stop fields rs
  | _, r => .error (refusal r)

/-! ### Programs -/

/-- Checks the members of a declaration; `tagged` tells whether the tag stands in front of them. -/
def declMembers (room : Nat) (tagged : Bool) :
    List (Option String × Reading) → Except DecodeError Bool
  | [] => .ok tagged
  | (none, _) :: _ => .error .malformed
  | (some key, r) :: rest =>
      if key = "type" then
        if tagged then .error .mismatch
        else do
          word Decl.tags r
          declMembers room true rest
      else do
        whole room r
        declMembers room tagged rest

/-- Checks that a declaration is JSON, and its tag in passing. -/
def declText : Check
  | 0, .object .. => .error .malformed
  | room + 1, .object ms stop => do
      let tagged ← declMembers room false ms
      stopNeeded stop
      if !tagged then
        throw .mismatch
  | 0, .array .. => .error .malformed
  | _ + 1, .array [] stop => do
      stopNeeded stop
      throw .mismatch
  | room + 1, .array (t :: rest) stop => do
      word Decl.tags t
      wholeItems room rest
      stopNeeded stop
  | _, r => .error (refusal r)

/-- Accepts declarations. -/
def decl : Check := fun room r => do
  declText room r
  if (Decl.ofReading? room r).isNone then
    throw .mismatch

def position : Check :=
  record [
    ⟨"line", number UInt32.size, true⟩,
    ⟨"column", number UInt32.size, true⟩,
    ⟨"offset", number UInt32.size, false⟩]

def root : Check :=
  record [
    ⟨"id", number UInt32.size, true⟩,
    ⟨"pos", position, true⟩,
    ⟨"decls", list decl, true⟩]

def sourceFile : Check := record [⟨"path", text, true⟩, ⟨"root", root, true⟩]

def program : Check :=
  record [⟨"files", list sourceFile, true⟩, ⟨"entry", number UInt64.size, true⟩]

end DecodeError

namespace Program

/-- How many arrays and objects may be open at once. -/
def maxDepth : Nat := 127

/-- Decodes a reading, or finds its first fault. -/
def ofReading (r : Reading) : Except DecodeError Program := do
  DecodeError.program maxDepth r
  match Program.ofReading? maxDepth r with
  | some p => .ok p
  | none => .error .mismatch

/-- Decodes a text. What follows the value comes last. -/
def ofText (s : String) : Except DecodeError Program := do
  let doc := Document.ofText s.toList
  let p ← ofReading doc.value
  if doc.trailing then .error .malformed else .ok p

end Program

end Sema
