import Sema.Analysis
import Sema.Program.Encode

/-!
An analysis as JSON: its types, its notes by increasing node id, what is known of the artifact, and
its diagnostics. Of the types the entries are shown and the handles of those that are built in, but
neither the map of names nor the map of pointers.
-/

namespace Sema

open Json (natural string array object)

def TypeId.toJson (t : TypeId) : Json := natural t.index

def Shape.toJson : Shape → Json
  | .void => object [("repr", string "void")]
  | .int bits signed =>
      object [("repr", string "int"), ("bits", natural bits), ("signed", .bool signed)]
  | .pointer pointee => object [("repr", string "pointer"), ("pointee", pointee.toJson)]
  | .empty => object [("repr", string "none")]

def TypeEntry.toJson (e : TypeEntry) : Json :=
  object [("name", string e.name), ("repr", e.shape.toJson)]

def Builtins.toJson (b : Builtins) : Json :=
  object [
    ("void", b.void.toJson), ("bool", b.bool.toJson), ("i32", b.i32.toJson), ("u8", b.u8.toJson),
    ("string_literal", b.stringLiteral.toJson), ("unreachable", b.unreachable.toJson),
    ("invalid", b.invalid.toJson)]

def TypeTable.toJson (t : TypeTable) : Json :=
  object [("entries", array (t.entries.map TypeEntry.toJson)), ("builtins", t.builtins.toJson)]

def Note.toJson : Note → Json
  | .typeRef type => object [("kind", string "type_ref"), ("ty", type.toJson)]
  | .expr type => object [("kind", string "expr"), ("ty", type.toJson)]
  | .fnDef skip implicitReturn =>
      object [
        ("kind", string "fn_def"), ("skip", .bool skip),
        ("implicit_return_type", .ofOption TypeId.toJson implicitReturn)]

def Notes.toJson (t : Notes) : Json :=
  object (t.toSortedList.map fun (n, note) => (Nat.repr n.value.toNat, note.toJson))

def Version.toJson (v : Version) : Json :=
  object [
    ("major", natural v.major.toNat), ("minor", natural v.minor.toNat),
    ("patch", natural v.patch.toNat)]

def OutputKind.toJson (k : OutputKind) : Json := string k.word

def Output.toJson (o : Output) : Json :=
  object [
    ("out_type", .ofOption OutputKind.toJson o.kind),
    ("out_name", .ofOption string o.name),
    ("version", .ofOption Version.toJson o.version),
    ("decl", .ofOption NodeId.toJson o.decl)]

def Diagnostic.toJson (d : Diagnostic) : Json :=
  object [("file", string d.file), ("start", d.start.toJson), ("message", string d.message)]

namespace Analysis

def toJson (a : Analysis) : Json :=
  object [
    ("types", a.types.toJson),
    ("annotations", a.notes.toJson),
    ("export", a.output.toJson),
    ("link_libraries", array (a.libraries.map string)),
    ("diagnostics", array (a.diagnostics.toList.map Diagnostic.toJson))]

/-- The written form of an analysis. -/
def dump (a : Analysis) : String := a.toJson.pretty

end Analysis

end Sema
