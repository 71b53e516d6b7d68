import Sema.TypeRef

/-!
The table of types. Every type is an entry and is handled by its index; one map leads from names to
handles, and another from pointers to theirs. Pointer types are interned: asking twice for a pointer
of one mutability to one type gives one handle. The first seven entries of every table are the
built-in types, in the order of their handles below.
-/

namespace Sema

/-- A handle to an entry of the type table. -/
structure TypeId where
  index : Nat
deriving DecidableEq

namespace TypeId

/-- The type of what has no value. -/
abbrev void : TypeId := ⟨0⟩
abbrev bool : TypeId := ⟨1⟩
abbrev i32 : TypeId := ⟨2⟩
abbrev u8 : TypeId := ⟨3⟩
/-- The type of what never completes. -/
abbrev unreachable : TypeId := ⟨4⟩
/-- Stands in for a type that was already reported as erroneous. -/
abbrev invalid : TypeId := ⟨5⟩
/-- The type of string literals, a constant pointer to bytes. -/
abbrev stringLiteral : TypeId := ⟨6⟩

/-- Whether a value of type `actual` may stand where `expected` is wanted. An invalid type on either
side always passes, since its fault is reported already; so does a value that never comes to be. -/
def accepts (expected actual : TypeId) : Bool :=
  expected = actual || expected = invalid || actual = invalid || actual = unreachable

end TypeId

/-- What a value of a type is made of. -/
inductive Shape where
  | void
  | int (bits : Nat) (signed : Bool)
  | pointer (pointee : TypeId)
  /-- The types `unreachable` and invalid have no values. -/
  | empty
deriving DecidableEq

structure TypeEntry where
  name : String
  shape : Shape
deriving DecidableEq

/-- The entry of a pointer type. Only its name tells what may be done through the pointer. -/
def TypeEntry.pointer (m : Mutability) (pointee : TypeId) (pointeeName : String) : TypeEntry :=
  ⟨"*" ++ m.word ++ " " ++ pointeeName, .pointer pointee⟩

/-- Entries, and where a name leads. -/
structure NamedEntries where
  entries : List TypeEntry
  /-- The handles by name. Of two bindings of a name the first counts. -/
  byName : List (String × TypeId)
deriving DecidableEq

namespace NamedEntries

def empty : NamedEntries := ⟨[], []⟩

/-- Adds an entry, to which its name leads from then on. -/
def add (t : NamedEntries) (e : TypeEntry) : TypeId × NamedEntries :=
  let id : TypeId := ⟨t.entries.length⟩
  (id, ⟨t.entries ++ [e], (e.name, id) :: t.byName⟩)

/-- Takes a name away; its entry stays. -/
def forget (t : NamedEntries) (name : String) : NamedEntries :=
  { t with byName := t.byName.filter (·.1 ≠ name) }

end NamedEntries

/-- The handles of the types that a table starts with. -/
structure Builtins where
  void : TypeId
  bool : TypeId
  i32 : TypeId
  u8 : TypeId
  stringLiteral : TypeId
  unreachable : TypeId
  invalid : TypeId
deriving DecidableEq

structure TypeTable extends NamedEntries where
  /-- The handles of pointers, by what they point to and what may be done through them. -/
  pointers : List ((TypeId × Mutability) × TypeId)
  builtins : Builtins
deriving DecidableEq

namespace TypeTable

def size (t : TypeTable) : Nat := t.entries.length

def get? (t : TypeTable) (i : TypeId) : Option TypeEntry := t.entries[i.index]?

def name? (t : TypeTable) (i : TypeId) : Option String := (t.get? i).map (·.name)

/-- The type of a given name. -/
def lookup? (t : TypeTable) (name : String) : Option TypeId := t.byName.lookup name

/-- Adds the pointer to a child of a given name. -/
def addPointer (t : TypeTable) (m : Mutability) (child : TypeId) (name : String) :
    TypeId × TypeTable :=
  let (id, named) := t.add (.pointer m child name)
  (id, { t with toNamedEntries := named, pointers := ((child, m), id) :: t.pointers })

/-- The pointer to `child`, with the table that holds it: it is added at the first request. There is
no pointer to a handle outside the table. -/
def pointerTo? (t : TypeTable) (m : Mutability) (child : TypeId) : Option (TypeId × TypeTable) :=
  match t.pointers.lookup (child, m) with
  | some known => some (known, t)
  | none => (t.name? child).map (t.addPointer m child)

/-- The table before there are pointers. No name leads to the invalid type, which a program cannot
name; until there is the pointer for them, string literals have that type. -/
def primitive : TypeTable :=
  let (void, t) := NamedEntries.empty.add ⟨"void", .void⟩
  let (bool, t) := t.add ⟨"bool", .int 1 false⟩
  let (i32, t) := t.add ⟨"i32", .int 32 true⟩
  let (u8, t) := t.add ⟨"u8", .int 8 false⟩
  let (unreachable, t) := t.add ⟨"unreachable", .empty⟩
  let (invalid, t) := t.add ⟨"(invalid)", .empty⟩
  { t.forget "(invalid)" with
    pointers := []
    builtins := { void, bool, i32, u8, stringLiteral := invalid, unreachable, invalid } }

/-- The table of the built-in types. -/
def initial : TypeTable :=
  let (literal, t) := (primitive.pointerTo? .constant primitive.builtins.u8).get (by decide)
  { t with builtins := { t.builtins with stringLiteral := literal } }

/-! ### One more pointer -/

section

variable (t : TypeTable) (m : Mutability) (c : TypeId) (n : String)

@[simp] theorem addPointer_entries :
    (t.addPointer m c n).2.entries = t.entries ++ [.pointer m c n] := rfl

@[simp] theorem addPointer_byName : (t.addPointer m c n).2.byName =
    ((TypeEntry.pointer m c n).name, ⟨t.size⟩) :: t.byName := rfl

@[simp] theorem addPointer_pointers :
    (t.addPointer m c n).2.pointers = ((c, m), ⟨t.size⟩) :: t.pointers := rfl

@[simp] theorem addPointer_builtins : (t.addPointer m c n).2.builtins = t.builtins := rfl

@[simp] theorem addPointer_size : (t.addPointer m c n).2.size = t.size + 1 := by simp [size]

end

/-! ### The built-in types -/

theorem initial_entries : initial.entries = [
    ⟨"void", .void⟩,
    ⟨"bool", .int 1 false⟩,
    ⟨"i32", .int 32 true⟩,
    ⟨"u8", .int 8 false⟩,
    ⟨"unreachable", .empty⟩,
    ⟨"(invalid)", .empty⟩,
    .pointer .constant .u8 "u8"] := rfl

theorem initial_byName : initial.byName = [
    ("*const u8", .stringLiteral),
    ("unreachable", .unreachable),
    ("u8", .u8),
    ("i32", .i32),
    ("bool", .bool),
    ("void", .void)] := rfl

theorem initial_pointers : initial.pointers = [((.u8, .constant), .stringLiteral)] := rfl

theorem initial_builtins : initial.builtins =
    { void := .void, bool := .bool, i32 := .i32, u8 := .u8, stringLiteral := .stringLiteral,
      unreachable := .unreachable, invalid := .invalid } := rfl

end TypeTable

end Sema
