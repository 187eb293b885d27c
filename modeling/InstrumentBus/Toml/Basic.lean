/-!
TOML documents as trees of tables, and the rules by which their lines build a tree.

A table is defined once: by a header, by dotted keys, or as a value. A header may still define a
table that so far was only on the way to others.
-/

namespace InstrumentBus

/-- How a table came to be: by its header (or as the whole document), on the way to the header of
another, by dotted keys, or as a value. -/
inductive TableOrigin
  | header : TableOrigin
  | path : TableOrigin
  | dotted : TableOrigin
  | value : TableOrigin
deriving DecidableEq

/-- A TOML value. Floats, dates and times are known only as `other`. An array made by headers is
one of tables. -/
inductive Toml
  | string : String → Toml
  | integer : Int → Toml
  | boolean : Bool → Toml
  | other : Toml
  | array : List Toml → Toml
  | table : TableOrigin → List (String × Toml) → Toml
  | tables : List (List (String × Toml)) → Toml

namespace Toml

abbrev Entries := List (String × Toml)

def setEntry (key : String) (value : Toml) (entries : Entries) : Entries :=
  entries.map fun e => if e.1 = key then (key, value) else e

def isOpen (dotted : Bool) : TableOrigin → Bool
  | .header => !dotted
  | .path => true
  | .dotted => true
  | .value => false

/-- Changes the table at the end of a path by `change`, which is told its origin. Tables that the
path lacks are made; an array of tables stands for its last member. -/
def descend (dotted : Bool) (change : TableOrigin → Entries → Option Entries) :
    List String → TableOrigin → Entries → Option Entries
  | [], origin, entries => change origin entries
  | key :: path, _, entries =>
    match entries.lookup key with
    | none => do
      let origin := if dotted then .dotted else .path
      let inner ← descend dotted change path origin []
      some (entries ++ [(key, .table origin inner)])
    | some (.table origin inner) =>
      if isOpen dotted origin then do
        some (setEntry key (.table origin (← descend dotted change path origin inner)) entries)
      else none
    | some (.tables items) =>
      match items.reverse with
      | [] => none
      | last :: before => do
        let last ← descend dotted change path .header last
        some (setEntry key (.tables (last :: before).reverse) entries)
    | some _ => none

def addEntry (key : String) (value : Toml) (entries : Entries) : Option Entries :=
  if (entries.lookup key).isSome then none else some (entries ++ [(key, value)])

/-- Puts a value at a dotted key. The table in which it ends up was made by dotted keys, or is the
one that the key starts from. -/
def put (path : List String) (key : String) (value : Toml) (origin : TableOrigin)
    (entries : Entries) : Option Entries :=
  descend true
    (fun origin entries =>
      if path.isEmpty || origin = .dotted then addEntry key value entries else none)
    path origin entries

def openTable (key : String) (entries : Entries) : Option Entries :=
  match entries.lookup key with
  | none => some (entries ++ [(key, .table .header [])])
  | some (.table .path inner) => some (setEntry key (.table .header inner) entries)
  | some _ => none

def appendTable (key : String) (entries : Entries) : Option Entries :=
  match entries.lookup key with
  | none => some (entries ++ [(key, .tables [[]])])
  | some (.tables items) => some (setEntry key (.tables (items ++ [[]])) entries)
  | some _ => none

structure Key where
  path : List String
  last : String
deriving DecidableEq

inductive Line
  | entry (key : Key) (value : Toml) : Line
  | table (key : Key) : Line
  | element (key : Key) : Line

/-- A document as far as it was read: its tree, and the path of the table that entries go to. -/
structure Document where
  entries : Entries
  current : List String

namespace Document

def empty : Document := ⟨[], []⟩

def add (d : Document) : Line → Option Document
  | .entry key value => do
    let entries ←
      descend false (fun origin => put key.path key.last value origin) d.current .header d.entries
    some { d with entries := entries }
  | .table key => do
    let entries ← descend false (fun _ => openTable key.last) key.path .header d.entries
    some ⟨entries, key.path ++ [key.last]⟩
  | .element key => do
    let entries ← descend false (fun _ => appendTable key.last) key.path .header d.entries
    some ⟨entries, key.path ++ [key.last]⟩

end Document

end Toml

end InstrumentBus
