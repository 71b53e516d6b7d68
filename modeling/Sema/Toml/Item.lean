/-!
The tree of a TOML document, and how keys and table headers build it up.

A table may be begun in several ways, and the way decides who may add to it later. A header may open
a table that so far exists only because it lies on the way to another one; dotted keys may add to
such a table and to one that dotted keys have made; nothing may add to an inline table.
-/

namespace Sema.Toml

/-- How a table came to be. -/
inductive Origin where
  /-- By a header of its own. -/
  | header
  /-- On the way to the table of a header. -/
  | passage
  /-- On the way to the value of a dotted key. -/
  | dotted
  /-- Written as a value. -/
  | inline
deriving DecidableEq

inductive Item where
  | string (text : String)
  /-- A number, a truth value or a date. -/
  | scalar
  | array (items : List Item)
  | table (origin : Origin) (entries : List (String × Item))
  /-- A list of tables, one for each header in double brackets. -/
  | tables (elements : List (List (String × Item)))

abbrev Entries := List (String × Item)

/-- Puts another item under a key that is there. -/
def Entries.set (es : Entries) (key : String) (item : Item) : Entries :=
  es.map fun e => if e.1 = key then (key, item) else e

/-- Changes the table that a path leads to. Tables that are missing on the way are made with the
origin `made`. The path leads through the last table of a list of tables. For a dotted key it must
not lead through a table with a header of its own. -/
def Entries.change (made : Origin) (f : Origin → Entries → Option Entries) (origin : Origin)
    (es : Entries) : List String → Option Entries
  | [] => f origin es
  | key :: path =>
    match es.lookup key with
    | none => do
        let inner ← Entries.change made f made [] path
        return es ++ [(key, .table made inner)]
    | some (.table .inline _) => none
    | some (.table o inner) =>
        if made = .dotted ∧ o = .header then none
        else do
          let inner ← Entries.change made f o inner path
          return es.set key (.table o inner)
    | some (.tables elements) =>
        match elements.getLast? with
        | none => none
        | some last => do
            let last ← Entries.change made f .header last path
            return es.set key (.tables (elements.dropLast ++ [last]))
    | some _ => none

/-- A key with its value; the path is what stands in front of the last dot. -/
structure KeyValue where
  path : List String
  key : String
  value : Item

/-- Adds a value. Its key must be new; if the key is dotted, dotted keys must have made the
table. -/
def Entries.add (es : Entries) (kv : KeyValue) : Option Entries :=
  Entries.change .dotted
    (fun origin inner =>
      if kv.path ≠ [] ∧ origin ≠ .dotted then none
      else if (inner.lookup kv.key).isSome then none
      else some (inner ++ [(kv.key, kv.value)]))
    .header es kv.path

/-- Adds values one after the other. -/
def Entries.addAll (es : Entries) (kvs : List KeyValue) : Option Entries :=
  kvs.foldlM Entries.add es

/-- The part of a document under one header. -/
structure Section where
  /-- Whether the header stands in double brackets. -/
  isElement : Bool
  path : List String
  key : String
  values : List KeyValue

/-- Adds a section: a new table, or a new element of a list of tables. -/
def Entries.addSection (root : Entries) (s : Section) : Option Entries :=
  Entries.change .passage
    (fun _ es =>
      if s.isElement then
        match es.lookup s.key with
        | none => do return es ++ [(s.key, .tables [← Entries.addAll [] s.values])]
        | some (.tables elements) => do
            return es.set s.key (.tables (elements ++ [← Entries.addAll [] s.values]))
        | some _ => none
      else
        match es.lookup s.key with
        | none => do return es ++ [(s.key, .table .header (← Entries.addAll [] s.values))]
        | some (.table .passage inner) => do
            return es.set s.key (.table .header (← Entries.addAll inner s.values))
        | some _ => none)
    .header root s.path

end Sema.Toml
