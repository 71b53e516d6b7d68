import Sema.Path

/-!
Directory trees: what paths lead to. A path is followed part by part from the root of the tree; two
dots lead up, and every part but the last has to be a directory. Nothing is known of what lies
outside of the tree.
-/

namespace Sema

/-- The names that lead from the root to an entry. -/
abbrev Location := List (List Char)

/-- The directories of a tree, apart from the root, and its files with their bytes. -/
structure FileTree where
  dirs : List Location
  files : List (Location × ByteArray)

namespace FileTree

def empty : FileTree := ⟨[], []⟩

def isDir (t : FileTree) (l : Location) : Bool := l = [] || t.dirs.contains l

/-- The location one part further, if the way goes on from there. -/
def enter? (t : FileTree) (l : Location) (part : List Char) : Option Location :=
  if !t.isDir l then none
  else if Path.isIdle part then some l
  else if part = ['.', '.'] then (if l = [] then none else some l.dropLast)
  else some (l ++ [part])

/-- Where a path leads. -/
def locate? (t : FileTree) (p : Path) : Option Location :=
  match p with
  | [] => none
  | '/' :: _ => none
  | p => (Text.split '/' p).foldlM t.enter? []

/-- The bytes of the file that a path leads to. -/
def read? (t : FileTree) (p : Path) : Option ByteArray :=
  (t.locate? p).bind fun l => t.files.lookup l

def isFile (t : FileTree) (p : Path) : Bool := (t.read? p).isSome

/-- A location and all that lead to it, without the root. -/
def ancestors : Location → List Location
  | [] => []
  | name :: rest => [name] :: (ancestors rest).map (name :: ·)

/-- The location that a path without double dots names. -/
def locationOf (p : Path) : Location := (Text.split '/' p).filter fun part => !Path.isIdle part

/-- Adds a directory and all that lead to it. -/
def addDir (t : FileTree) (p : Path) : FileTree := ⟨t.dirs ++ ancestors (locationOf p), t.files⟩

/-- Adds a file and the directories that lead to it. -/
def addFile (t : FileTree) (p : Path) (bytes : ByteArray) : FileTree :=
  ⟨t.dirs ++ ancestors (locationOf p).dropLast, (locationOf p, bytes) :: t.files⟩

end FileTree

end Sema
