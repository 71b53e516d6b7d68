import Sema.FileTree
import Sema.OutputKind
import Sema.Toml.Document

/-!
Manifests: the file `Kiln.toml`, whose section `package` may give the name and the kind of the
artifact. Other keys and sections are of no concern, but the file must be proper TOML as a whole.

The manifest of a source file is the nearest one in its directory or above it, going up by the parts
of the path as it is written.
-/

namespace Sema

/-- The section `package`. -/
structure Package where
  name : Option String
  kind : Option String

structure Manifest where
  package : Package
  /-- The directory of the manifest. -/
  rootDir : String

inductive ManifestError where
  /-- There is no manifest in this directory or above it. -/
  | notFound (dir : String)
  | unreadable
  | malformed
  | unknownKind (kind : String)

/-- The message of an error, where it does not depend on the file. -/
def ManifestError.message? : ManifestError → Option String
  | .notFound dir => some ("no Kiln.toml found (searched from " ++ dir ++ ")")
  | .unreadable => none
  | .malformed => none
  | .unknownKind kind => some ("invalid Kiln.toml: unknown package kind '" ++ kind ++ "'")

/-- The kind a word stands for, as an error if it stands for none. -/
def OutputKind.ofManifest (word : String) : Except ManifestError OutputKind :=
  match OutputKind.ofWord? word with
  | some kind => .ok kind
  | none => .error (.unknownKind word)

namespace Package

open Toml (Item Entries)

/-- The settings of a manifest without the section. -/
def empty : Package := ⟨none, none⟩

def text? : Item → Option String
  | .string s => some s
  | _ => none

/-- A text that may be missing. -/
def optionalText? : Option Item → Option (Option String)
  | none => some none
  | some item => (text? item).map some

/-- The section as a table, or as an array of the name and the kind. -/
def ofItem? : Item → Option Package
  | .table _ es => do
      return ⟨← optionalText? (es.lookup "name"), ← optionalText? (es.lookup "kind")⟩
  | .array items => do return ⟨← optionalText? items[0]?, ← optionalText? items[1]?⟩
  | .tables _ => none
  | .string _ => none
  | .scalar => none

def ofEntries? (es : Entries) : Option Package :=
  match es.lookup "package" with
  | none => some empty
  | some item => ofItem? item

end Package

namespace Manifest

/-- The name of the manifest file. -/
def fileName : String := "Kiln.toml"

/-- Reads a manifest. A text that is no proper manifest is a worse error than an unknown kind. -/
def parse (text rootDir : String) : Except ManifestError Manifest := do
  match (Toml.Entries.ofText? text).bind Package.ofEntries? with
  | none => .error .malformed
  | some package =>
      if let some kind := package.kind then
        let _ ← OutputKind.ofManifest kind
      return ⟨package, rootDir⟩

/-- The settings that a manifest makes. -/
def buildOptions (m : Manifest) : Except ManifestError BuildOptions := do
  return ⟨m.package.name, ← m.package.kind.mapM OutputKind.ofManifest⟩

/-- Looks for the manifest in a directory and above it. -/
def find? (t : FileTree) (dir : Path) : Option Path :=
  if t.isFile (dir.child fileName.toList) then some (dir.child fileName.toList)
  else
    match _h : dir.parent? with
    | some parent => find? t parent
    | none => none
termination_by dir.length
decreasing_by exact Path.length_parent? _h

/-- The directory of a path. -/
def directoryOf (p : Path) : Path := p.parent?.getD ['.']

/-- Reads the manifest that a path leads to. -/
def load (t : FileTree) (p : Path) : Except ManifestError Manifest :=
  match (t.read? p).bind String.fromUTF8? with
  | none => .error .unreadable
  | some text => parse text (String.ofList (directoryOf p))

/-- Finds and reads the manifest of a source file. -/
def loadFor (t : FileTree) (source : Path) : Except ManifestError Manifest :=
  match find? t (directoryOf source) with
  | none => .error (.notFound (String.ofList (directoryOf source)))
  | some p => load t p

end Manifest

end Sema
