import Codemod.Data.Basic

/-! Layers of structured data. A later layer adds to the tables of an earlier one, entry by entry;
every other value it holds takes the place of the earlier one as a whole. -/
namespace Codemod.Data

mutual

/-- The value that two layers hold together, of which `upper` is the later. -/
def merge (lower upper : Data) : Data :=
  match lower with
  | .table base =>
    match upper with
    | .table entries =>
      .table (mergeEntries base entries ++
        entries.filter fun entry => (base.lookup entry.1).isNone)
    | value => value
  | _ => upper

def mergeEntries (base entries : List (String × Data)) : List (String × Data) :=
  match base with
  | [] => []
  | (name, old) :: rest =>
    (name, match entries.lookup name with
      | some value => merge old value
      | none => old) :: mergeEntries rest entries

end

/-- Entries with one more, which takes the place of an entry of the same name. -/
def insert (entries : List (String × Data)) (name : String) (value : Data) :
    List (String × Data) :=
  match entries with
  | [] => [(name, value)]
  | (key, old) :: rest =>
    if key = name then (key, value) :: rest else (key, old) :: insert rest name value

def nest : List String → Data → Data
  | [], value => value
  | name :: path, value => .table [(name, nest path value)]

theorem merge_table (base entries : List (String × Data)) :
    merge (.table base) (.table entries) = .table (mergeEntries base entries ++
      entries.filter fun entry => (base.lookup entry.1).isNone) := rfl

end Codemod.Data
