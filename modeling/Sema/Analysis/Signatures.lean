import Sema.Analysis
import Sema.Program

/-!
The first half of an analysis: all files are read for their signatures and for what they ask of the
artifact, and no body is looked at. So a body may call what is declared later or in another file.
-/

namespace Sema

/-- The file whose declarations are read. -/
structure FileContext where
  index : Nat
  path : String
  isEntry : Bool

/-- An analysis in the middle of a file, with the functions of that file so far. -/
structure FileScan where
  analysis : Analysis
  own : Bindings

namespace Analysis

/-! ### Written types -/

/-- The type of a name. An unknown name is an issue and stands for the invalid type. -/
def typeNamed (a : Analysis) (path : String) (pos : Position) (name : String) : TypeId × Analysis :=
  match a.types.lookup? name with
  | some type => (type, a)
  | none => (.invalid, a.report path pos (.unknownType name))

/-- The pointer to a type. -/
def pointerTo (a : Analysis) (m : Mutability) (child : TypeId) :
    Except AnalysisError (TypeId × Analysis) :=
  match a.types.pointerTo? m child with
  | some (type, types) => .ok (type, { a with types := types })
  | none => .error (.outOfRange child.index)

/-- Finds the type of a written type and notes it. A pointer that has a note already is refused
before its child is looked at. -/
def resolveType (path : String) (a : Analysis) : TypeRef → Except AnalysisError (TypeId × Analysis)
  | .named node name => do
      let (type, a) := a.typeNamed path node.pos name
      return (type, ← a.record node.id (.typeRef type))
  | .pointer node m child => do
      if a.notes.contains node.id then
        throw (.alreadyAnnotated node.id)
      let (pointee, a) ← resolveType path a child
      let a := if pointee = .unreachable then a.report path node.pos .pointerToUnreachable else a
      let (type, a) ← a.pointerTo m pointee
      return (type, ← a.record node.id (.typeRef type))

/-! ### Signatures -/

def reportDirective (path : String) (a : Analysis) (d : Directive) : Analysis :=
  a.report path d.node.pos (.invalidDirective d.name)

def resolveParam (path : String) (a : Analysis) (p : Param) : Except AnalysisError Analysis :=
  return (← a.resolveType path p.type).2

/-- Resolves the types of a signature. A signature takes no directives. -/
def resolvePrototype (path : String) (a : Analysis) (p : Prototype) :
    Except AnalysisError Analysis := do
  let a := p.directives.foldl (reportDirective path) a
  let a ← p.params.foldlM (resolveParam path) a
  return (← a.resolveType path p.returnType).2

end Analysis

namespace FileScan

/-- Adds a function and binds its name, for all files when it is shared. -/
def bind (s : FileScan) (f : Function) : FileScan :=
  let (id, a) := s.analysis.addFunction f
  let globals :=
    if f.proto.visibility = .shared then a.globals.insert f.name id else a.globals
  ⟨{ a with globals := globals }, s.own.insert f.name id⟩

/-- A directive of an external block names a library to link with. -/
def readLink (path : String) (a : Analysis) (d : Directive) : Analysis :=
  if d.name = "link" then { a with libraries := Text.insertSorted d.param a.libraries }
  else a.reportDirective path d

def readExternal (c : FileContext) (s : FileScan) (f : ExternalFn) :
    Except AnalysisError FileScan := do
  let a ← s.analysis.resolvePrototype c.path f.proto
  return FileScan.bind ⟨a, s.own⟩ (.declared f.proto c.index)

def readExternalBlock (c : FileContext) (s : FileScan) (b : ExternalBlock) :
    Except AnalysisError FileScan :=
  b.functions.foldlM (readExternal c) ⟨b.directives.foldl (readLink c.path) s.analysis, s.own⟩

/-- Whether a definition repeats a name: one of its file, or a shared one when it is shared too. -/
def isRedefinition (s : FileScan) (p : Prototype) : Bool :=
  s.own.contains p.name
    || (p.visibility = .shared && s.analysis.globals.contains p.name)

/-- Reads a definition up to its body. A redefinition is not bound; a note keeps its body out of the
analysis. -/
def readDefinition (c : FileContext) (s : FileScan) (d : FnDef) :
    Except AnalysisError FileScan := do
  if s.isRedefinition d.proto then
    let a := s.analysis.report c.path d.node.pos (.redefinition d.proto.name)
    return ⟨← a.record d.node.id (.fnDef true none), s.own⟩
  else
    let s := s.bind (.defined d.proto d.node.id c.index)
    return ⟨← s.analysis.resolvePrototype c.path d.proto, s.own⟩

end FileScan

/-! ### The artifact -/

namespace Analysis

/-- A directive of a root export gives the version; only the first root export sets it. -/
def readVersion (path : String) (isFirst : Bool) (a : Analysis) (d : Directive) : Analysis :=
  if d.name = "version" then
    match Version.parse? d.param with
    | some v =>
        if isFirst then { a with output := { a.output with version := some v } } else a
    | none => a.report path d.node.pos .invalidVersion
  else a.reportDirective path d

/-- Takes the name and the kind of the artifact from its declaration, where the build options have
left them open. -/
def takeOutput (path : String) (a : Analysis) (e : RootExport) : Analysis :=
  let output := { a.output with
    decl := some e.node.id, name := a.output.name.or (some e.name) }
  match OutputKind.ofWord? e.kind with
  | some kind => { a with output := { output with kind := output.kind.or (some kind) } }
  | none =>
      { a with output := output }.report path e.node.pos (.unknownOutputKind e.kind)

/-- Reads a root export. It counts in the entry file only, and only once. -/
def readRootExport (c : FileContext) (a : Analysis) (e : RootExport) : Analysis :=
  if c.isEntry then
    let isFirst := a.output.decl.isNone
    let a := e.directives.foldl (readVersion c.path isFirst) a
    if isFirst then a.takeOutput c.path e
    else a.report c.path e.node.pos .repeatedExport
  else a.report c.path e.node.pos .exportOutsideEntry

end Analysis

/-! ### Files -/

namespace FileScan

def readDecl (c : FileContext) (s : FileScan) : Decl → Except AnalysisError FileScan
  | .fnDef d => readDefinition c s d
  | .externalBlock b => readExternalBlock c s b
  | .rootExport e => return ⟨s.analysis.readRootExport c e, s.own⟩
  -- The used file is a file of the program itself.
  | .use _ => return s

end FileScan

namespace Analysis

/-- Reads the signatures of a file and adds the table of its functions. -/
def readFile (c : FileContext) (a : Analysis) (f : SourceFile) : Except AnalysisError Analysis := do
  let s ← f.decls.foldlM (FileScan.readDecl c) ⟨a, .empty⟩
  return { s.analysis with locals := s.analysis.locals ++ [s.own] }

/-- Reads the signatures of the files from index `i` on. -/
def readFiles (entry : Nat) (a : Analysis) (i : Nat) :
    List SourceFile → Except AnalysisError Analysis
  | [] => .ok a
  | f :: rest => do
      let a ← a.readFile ⟨i, f.path, i == entry⟩ f
      readFiles entry a (i + 1) rest

end Analysis

end Sema
