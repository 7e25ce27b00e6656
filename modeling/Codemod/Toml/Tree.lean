import Codemod.Data.Basic

/-! The tables of a TOML text while it is read. Each table remembers how it came about, since that
decides what may still be added to it. -/
namespace Codemod.Toml

/-- How a table came about: by a header of its own, as a part of another table's header, or by a
dotted key. -/
inductive Standing where
  | stated
  | implied
  | dotted
deriving DecidableEq, Repr

inductive Node where
  | value (d : Data)
  | table (standing : Standing) (entries : List (String × Node))
  /-- An array of tables, of which only the last can grow. -/
  | tables (earlier : List Node) (last : List (String × Node))
deriving Repr

abbrev Entries := List (String × Node)

namespace Node

mutual

def toData : Node → Data
  | .value d => d
  | .table _ entries => .table (entriesToData entries)
  | .tables earlier last => .list (nodesToData earlier ++ [.table (entriesToData last)])

def nodesToData : List Node → List Data
  | [] => []
  | node :: nodes => node.toData :: nodesToData nodes

def entriesToData : List (String × Node) → List (String × Data)
  | [] => []
  | (name, node) :: rest => (name, node.toData) :: entriesToData rest

end

end Node

namespace Entries

def replace (entries : Entries) (name : String) (node : Node) : Entries :=
  entries.map fun entry => if entry.1 = name then (name, node) else entry

/-- Adds a value under a dotted key. The tables on the way must not have a header of their own,
and the innermost must be one of dotted keys. -/
def assign (path : List String) (key : String) (d : Data) (entries : Entries) : Option Entries :=
  match path with
  | [] =>
    match entries.lookup key with
    | none => some (entries ++ [(key, .value d)])
    | some _ => none
  | name :: path =>
    match entries.lookup name with
    | none => (assign path key d []).map fun inner => entries ++ [(name, .table .dotted inner)]
    | some (.table standing inner) =>
      if standing = .stated ∨ (path = [] ∧ standing ≠ .dotted) then none
      else (assign path key d inner).map fun inner => replace entries name (.table standing inner)
    | some (.tables earlier last) =>
      if path = [] then none
      else (assign path key d last).map fun last => replace entries name (.tables earlier last)
    | some (.value _) => none

/-- Changes the table that a header's path leads to, through the last element of every array of
tables. Tables that are missing on the way are implied. -/
def modifyAt (path : List String) (change : Entries → Option Entries) (entries : Entries) :
    Option Entries :=
  match path with
  | [] => change entries
  | name :: path =>
    match entries.lookup name with
    | none => (modifyAt path change []).map fun inner => entries ++ [(name, .table .implied inner)]
    | some (.table standing inner) =>
      (modifyAt path change inner).map fun inner => replace entries name (.table standing inner)
    | some (.tables earlier last) =>
      (modifyAt path change last).map fun last => replace entries name (.tables earlier last)
    | some (.value _) => none

/-- Opens the table of a header. A table has one header at most, and one that dotted keys made
has none. -/
def openTable (key : String) (entries : Entries) : Option Entries :=
  match entries.lookup key with
  | none => some (entries ++ [(key, .table .stated [])])
  | some (.table .implied inner) => some (replace entries key (.table .stated inner))
  | some _ => none

def openElement (key : String) (entries : Entries) : Option Entries :=
  match entries.lookup key with
  | none => some (entries ++ [(key, .tables [] [])])
  | some (.tables earlier last) =>
    some (replace entries key (.tables (earlier ++ [.table .stated last]) []))
  | some _ => none

end Entries

end Codemod.Toml
