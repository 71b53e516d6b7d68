import Sema.Json
import Sema.Json.Token

/-!
Readings: what a text gives as a JSON value up to the place where it stops being JSON. So a reader
that walks through a reading from left to right meets a fault of the text exactly where it stands,
after whatever else is wrong in front of it.

An array or an object that the text breaks off holds what was read of it; its last part may be
broken off itself.
-/

namespace Sema.Json

inductive Reading where
  | null
  | bool (value : Bool)
  | number (value : Numeral)
  /-- A string; there is no text if an escape in it stands for half a surrogate pair. -/
  | string (text : Option String)
  | array (items : List Reading) (stop : Option Halt)
  | object (members : List (Option String × Reading)) (stop : Option Halt)
  /-- The text stops where a value should begin. -/
  | broken (halt : Halt)

/-- The members of an object as far as they are read. -/
abbrev Members := List (Option String × Reading)

/-- A container around the value that is being read: what it holds so far, latest first. -/
inductive Frame where
  | array (items : List Reading)
  | member (members : Members) (key : Option String)

/-- What may come next in an array. -/
inductive ItemPlace where
  | first
  | afterItem

/-- What may come next in an object. -/
inductive MemberPlace where
  | first
  | afterMember
  | key

/-- The state of reading, by what has to come next. Open containers are listed from the inside
out. -/
inductive Progress where
  | value (outer : List Frame)
  | inArray (outer : List Frame) (items : List Reading) (place : ItemPlace)
  | inObject (outer : List Frame) (members : Members) (place : MemberPlace)
  | colon (outer : List Frame) (members : Members) (key : Option String)
  /-- The text is read up to the end of its value. -/
  | complete (result : Reading)
  /-- Something follows the value. -/
  | trailing (result : Reading)
  /-- The text broke off inside the value. -/
  | stopped (result : Reading)

namespace Progress

/-- Goes on after a finished value. -/
def deliver (v : Reading) : List Frame → Progress
  | [] => .complete v
  | .array items :: outer => .inArray outer (v :: items) .afterItem
  | .member members key :: outer => .inObject outer ((key, v) :: members) .afterMember

/-- Closes all open containers around a value that breaks off. -/
def enclose (h : Halt) (v : Reading) : List Frame → Reading
  | [] => v
  | .array items :: outer => enclose h (.array (v :: items).reverse (some h)) outer
  | .member members key :: outer => enclose h (.object ((key, v) :: members).reverse (some h)) outer

/-- The reading of a text that breaks off where a value should begin. -/
def breakValue (h : Halt) (outer : List Frame) : Reading := enclose h (.broken h) outer

/-- The reading of a text that breaks off between the items of an array. -/
def breakArray (h : Halt) (outer : List Frame) (items : List Reading) : Reading :=
  enclose h (.array items.reverse (some h)) outer

/-- The reading of a text that breaks off between the members of an object. -/
def breakObject (h : Halt) (outer : List Frame) (members : Members) : Reading :=
  enclose h (.object members.reverse (some h)) outer

/-- The step for a token where a value has to come. -/
def readValue (outer : List Frame) : Token → Progress
  | .null => deliver .null outer
  | .bool b => deliver (.bool b) outer
  | .number n => deliver (.number n) outer
  | .string s => deliver (.string s) outer
  | .openArray => .inArray outer [] .first
  | .openObject => .inObject outer [] .first
  | .broken h | .brokenString h => .stopped (breakValue h outer)
  | .closeArray | .closeObject | .comma | .colon => .stopped (breakValue .malformed outer)

/-- The step for one token. -/
def step : Progress → Token → Progress
  | .value outer, t => readValue outer t
  | .inArray outer items .first, t =>
      match t with
      | .closeArray => deliver (.array items.reverse none) outer
      | t => readValue (.array items :: outer) t
  | .inArray outer items .afterItem, t =>
      match t with
      | .closeArray => deliver (.array items.reverse none) outer
      | .comma => .value (.array items :: outer)
      | _ => .stopped (breakArray .malformed outer items)
  | .inObject outer members .first, t =>
      match t with
      | .closeObject => deliver (.object members.reverse none) outer
      | .string key => .colon outer members key
      | .brokenString h => .stopped (breakObject h outer members)
      | _ => .stopped (breakObject .malformed outer members)
  | .inObject outer members .key, t =>
      match t with
      | .string key => .colon outer members key
      | .brokenString h => .stopped (breakObject h outer members)
      | _ => .stopped (breakObject .malformed outer members)
  | .inObject outer members .afterMember, t =>
      match t with
      | .closeObject => deliver (.object members.reverse none) outer
      | .comma => .inObject outer members .key
      | _ => .stopped (breakObject .malformed outer members)
  | .colon outer members key, t =>
      match t with
      | .colon => .value (.member members key :: outer)
      | _ => .stopped (breakValue .malformed (.member members key :: outer))
  | .complete v, _ => .trailing v
  | .trailing v, _ => .trailing v
  | .stopped v, _ => .stopped v

/-- Reads a text from a state on, token by token. -/
def read (p : Progress) (s : List Char) : Progress :=
  match s with
  | [] => p
  | c :: r =>
    if isBlank c then p.read r
    else (p.step (scanToken c r).1).read (scanToken c r).2
termination_by s.length
decreasing_by
  · simp
  · have := length_scanToken c r
    simp; omega

end Progress

/-- A text as a JSON value, and whether more than blanks follows it. -/
structure Document where
  value : Reading
  trailing : Bool

/-- What is read when the text ends. -/
def Progress.finish : Progress → Document
  | .value outer => ⟨breakValue .ended outer, false⟩
  | .inArray outer items _ => ⟨breakArray .ended outer items, false⟩
  | .inObject outer members _ => ⟨breakObject .ended outer members, false⟩
  | .colon outer members key => ⟨breakValue .ended (.member members key :: outer), false⟩
  | .complete v => ⟨v, false⟩
  | .trailing v => ⟨v, true⟩
  | .stopped v => ⟨v, false⟩

/-- Reads a text. -/
def Document.ofText (s : List Char) : Document :=
  (Progress.read (.value []) s).finish

mutual

/-- A JSON value as a reading. -/
def toReading : Json → Reading
  | .null => .null
  | .bool b => .bool b
  | .natural n => .number (.natural (UInt64.ofNat n))
  | .string s => .string (some s)
  | .array items => .array (toReadings items) none
  | .object members => .object (toMembers members) none

def toReadings : List Json → List Reading
  | [] => []
  | v :: vs => toReading v :: toReadings vs

def toMembers : List (String × Json) → Members
  | [] => []
  | (k, v) :: ms => (some k, toReading v) :: toMembers ms

end

end Sema.Json
