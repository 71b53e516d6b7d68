import Mathlib.Logic.Relation
import Sema.Proofs.JsonDepth

/-!
Spellings of programs in JSON. Each value in the JSON form of a program has a form, which gives the
names of its fields, the forms of their values and the defaults that may be left out. A value is
respelled by one change to one object in it, at any depth: its members are put in another order, a
member that means nothing is added, or a field that holds its default is left out.
-/

namespace Sema

open Json (Reading Members)

/-! ### JSON values -/

namespace Json.Reading

mutual

/-- Whether a reading is a JSON value: nothing in it breaks off, strings have a text, and numbers are in
the range of floats. -/
def Complete : Reading → Prop
  | .null => True
  | .bool _ => True
  | .number (.natural _) => True
  | .number (.other inRange) => inRange
  | .string text => text.isSome
  | .array items stop => stop = none ∧ CompleteAll items
  | .object members stop => stop = none ∧ CompleteMembers members
  | .broken _ => False

def CompleteAll : List Reading → Prop
  | [] => True
  | r :: rs => r.Complete ∧ CompleteAll rs

def CompleteMembers : List (Option String × Reading) → Prop
  | [] => True
  | m :: ms => m.1.isSome ∧ m.2.Complete ∧ CompleteMembers ms

end

end Json.Reading

/-! ### Forms -/

/-- What a JSON value in a program stands for. -/
inductive Form where
  /-- A number, a text, a flag or a word. -/
  | single
  | list (item : Form)
  | position
  | directive
  | typeRef
  /-- A written type without its node, told by its tag. -/
  | typeKind
  | param
  | prototype
  | expr
  /-- An expression without its node, told by its tag. -/
  | exprKind
  | externalFn
  | decl
  /-- The node and the declarations of a file. -/
  | root
  | sourceFile
  | program

namespace Form

/-- A field of a record. -/
structure Field where
  name : String
  form : Form
  /-- The values for which the field may be left out. -/
  Default : Reading → Prop

/-- A field that has to be given. -/
def Field.required (name : String) (form : Form) : Field := ⟨name, form, fun _ => False⟩

def nodeFields : List Field := [.required "id" .single, .required "pos" .position]

/-- The directives of a record, which may be left out if there are none. -/
def directivesField : Field := ⟨"directives", .list .directive, (· = .array [] none)⟩

/-- The fields of a record, in the order in which they stand in an array. -/
def fields : Form → List Field
  | .position => [.required "line" .single, .required "column" .single,
      ⟨"offset", .single, (· = .number (.natural 0))⟩]
  | .directive => nodeFields ++ [.required "name" .single,
      ⟨"param", .single, (· = .string (some ""))⟩]
  | .typeRef => nodeFields ++ [.required "kind" .typeKind]
  | .param => nodeFields ++ [.required "name" .single, .required "ty" .typeRef]
  | .prototype => nodeFields ++ [.required "name" .single,
      ⟨"visibility", .single, (·.choice? Visibility.ofWord? = some .fileOnly)⟩,
      .required "params" (.list .param), .required "return_type" .typeRef, directivesField]
  | .expr => nodeFields ++ [.required "kind" .exprKind]
  | .externalFn => nodeFields ++ [.required "proto" .prototype]
  | .root => nodeFields ++ [.required "decls" (.list .decl)]
  | .sourceFile => [.required "path" .single, .required "root" .root]
  | .program => [.required "files" (.list .sourceFile), .required "entry" .single]
  | .single | .list _ | .typeKind | .exprKind | .decl => []

/-- The fields of a value of several kinds, by its tag. -/
def variants : Form → List (String × List Field)
  | .typeKind => [
      ("primitive", [.required "name" .single]),
      ("pointer", [.required "is_const" .single, .required "child" .typeRef])]
  | .exprKind => [
      ("block", [.required "statements" (.list .expr)]),
      ("return", [⟨"expr", .expr, (· = .null)⟩]),
      ("binary", [.required "op" .single, .required "lhs" .expr, .required "rhs" .expr]),
      ("call", [.required "callee" .expr, .required "args" (.list .expr)]),
      ("number_literal", [.required "value" .single]),
      ("string_literal", [.required "value" .single]),
      ("unreachable", []),
      ("void", []),
      ("symbol", [.required "name" .single]),
      ("cast", [.required "expr" .expr, .required "ty" .typeRef]),
      ("prefix", [.required "op" .single, .required "operand" .expr]),
      ("if", [.required "condition" .expr, .required "then_block" .expr,
        ⟨"else_node", .expr, (· = .null)⟩])]
  | .decl => [
      ("fn_def", nodeFields ++ [.required "proto" .prototype, .required "body" .expr]),
      ("extern_block", nodeFields ++ [directivesField, .required "fn_decls" (.list .externalFn)]),
      ("root_export", nodeFields ++ [.required "kind" .single, .required "name" .single,
        directivesField]),
      ("use", nodeFields ++ [.required "path" .single, directivesField])]
  | _ => []

/-- The fields of a value, its tag included, if it stands for a record or for a value of several
kinds. -/
def fieldsIn (F : Form) (r : Reading) : Option (List Field) :=
  match F with
  | .single | .list _ => none
  | .typeKind | .exprKind | .decl => do
      let (tag, _) ← r.tagged? (F.variants.map (·.1))
      return .required "type" .single :: (← F.variants.lookup tag)
  | _ => some F.fields

end Form

/-! ### Changes of the spelling -/

/-- Whether a value of some form becomes another by one change, given how many arrays and objects may be
open in it at once. -/
inductive Respells : Nat → Form → Reading → Reading → Prop where
  /-- The members are put in another order. -/
  | permute {room : Nat} {F : Form} {ms ms' : Members} {stop : Option Json.Halt} {fs : List Form.Field}
      (fields : F.fieldsIn (.object ms stop) = some fs) (perm : ms.Perm ms') :
      Respells (room + 1) F (.object ms stop) (.object ms' stop)
  /-- Any value is added under a name that is neither that of a field nor that of the tag. -/
  | insert {room : Nat} {F : Form} {ms : Members} {stop : Option Json.Halt} {fs : List Form.Field}
      {key : String} {v : Reading} (fields : F.fieldsIn (.object ms stop) = some fs)
      (unknown : key ∉ fs.map (·.name)) (complete : v.Complete) (fits : v.depth ≤ room) :
      Respells (room + 1) F (.object ms stop) (.object ((some key, v) :: ms) stop)
  /-- A field that holds its default is left out. -/
  | drop {room : Nat} {F : Form} {before after : Members} {stop : Option Json.Halt}
      {fs : List Form.Field} {f : Form.Field} {v : Reading}
      (fields : F.fieldsIn (.object (before ++ (some f.name, v) :: after) stop) = some fs)
      (mem : f ∈ fs) (default : f.Default v) :
      Respells (room + 1) F (.object (before ++ (some f.name, v) :: after) stop)
        (.object (before ++ after) stop)
  /-- The value of a field is respelled. -/
  | member {room : Nat} {F : Form} {before after : Members} {stop : Option Json.Halt}
      {fs : List Form.Field} {f : Form.Field} {v v' : Reading}
      (fields : F.fieldsIn (.object (before ++ (some f.name, v) :: after) stop) = some fs)
      (mem : f ∈ fs) (inner : Respells room f.form v v') :
      Respells (room + 1) F (.object (before ++ (some f.name, v) :: after) stop)
        (.object (before ++ (some f.name, v') :: after) stop)
  /-- The value of a field is respelled in a record that is written as an array. -/
  | item {room : Nat} {F : Form} {items : List Reading} {stop : Option Json.Halt}
      {fs : List Form.Field} {i : Nat} {f : Form.Field} {v v' : Reading}
      (fields : F.fieldsIn (.array items stop) = some fs) (field : fs[i]? = some f)
      (given : items[i]? = some v) (inner : Respells room f.form v v') :
      Respells (room + 1) F (.array items stop) (.array (items.set i v') stop)
  /-- An item of a list is respelled. -/
  | element {room : Nat} {F : Form} {items : List Reading} {stop : Option Json.Halt} {i : Nat}
      {v v' : Reading} (given : items[i]? = some v) (inner : Respells room F v v') :
      Respells (room + 1) (.list F) (.array items stop) (.array (items.set i v') stop)

end Sema
