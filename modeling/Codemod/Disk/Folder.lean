import Codemod.Path

/-! Folders and what they hold. A folder is written as its entries one after another, by increasing
name, so that the folders below it are parts of it in the same sense as the entries that follow. -/
namespace Codemod

/-- What stands in a folder. Every name has its content to itself: there are no hard links, so that
a write by one name is seen under no other. What is proved about runs rests on this. -/
inductive Folder where
  | empty
  /-- A file, its content, and how often it has been opened for writing. -/
  | file (name : Bytes) (content : Bytes) (revision : Nat) (rest : Folder)
  | link (name : Bytes) (target : Path) (rest : Folder)
  | sub (name : Bytes) (entries : Folder) (rest : Folder)
deriving DecidableEq, Repr

inductive Entry where
  | file (content : Bytes) (revision : Nat)
  | link (target : Path)
  | folder (entries : Folder)
deriving DecidableEq, Repr

/-- Where an entry stands: the names that lead to it from the top of the disk. -/
abbrev Location := List Bytes

namespace Folder

def cons (name : Bytes) (entry : Entry) (rest : Folder) : Folder :=
  match entry with
  | .file content revision => .file name content revision rest
  | .link target => .link name target rest
  | .folder entries => .sub name entries rest

def find? (name : Bytes) : Folder → Option Entry
  | .empty => none
  | .file n content revision rest =>
    if n = name then some (.file content revision) else find? name rest
  | .link n target rest => if n = name then some (.link target) else find? name rest
  | .sub n entries rest => if n = name then some (.folder entries) else find? name rest

/-- Puts an entry at its place among the names, instead of an entry that has its name. -/
def put (name : Bytes) (entry : Entry) : Folder → Folder
  | .empty => cons name entry .empty
  | .file n content revision rest =>
    if n = name then cons name entry rest
    else if name < n then cons name entry (.file n content revision rest)
    else .file n content revision (put name entry rest)
  | .link n target rest =>
    if n = name then cons name entry rest
    else if name < n then cons name entry (.link n target rest)
    else .link n target (put name entry rest)
  | .sub n entries rest =>
    if n = name then cons name entry rest
    else if name < n then cons name entry (.sub n entries rest)
    else .sub n entries (put name entry rest)

def erase (name : Bytes) : Folder → Folder
  | .empty => .empty
  | .file n content revision rest =>
    if n = name then rest else .file n content revision (erase name rest)
  | .link n target rest => if n = name then rest else .link n target (erase name rest)
  | .sub n entries rest => if n = name then rest else .sub n entries (erase name rest)

@[simp] theorem find?_cons_same (name : Bytes) (entry : Entry) (rest : Folder) :
    (cons name entry rest).find? name = some entry := by
  cases entry <;> simp [cons, find?]

theorem find?_cons_other {name other : Bytes} (entry : Entry) (rest : Folder)
    (apart : name ≠ other) : (cons name entry rest).find? other = rest.find? other := by
  cases entry <;> simp [cons, find?, apart]

def entryAt (folder : Folder) : Location → Option Entry
  | [] => some (.folder folder)
  | name :: rest =>
    match folder.find? name with
    | some (.folder entries) => entries.entryAt rest
    | some entry => if rest = [] then some entry else none
    | none => none

/-- Changes the folder at a location; without a folder there, nothing changes. -/
def changeAt (change : Folder → Folder) : Location → Folder → Folder
  | [], folder => change folder
  | name :: rest, folder =>
    match folder.find? name with
    | some (.folder entries) => folder.put name (.folder (changeAt change rest entries))
    | _ => folder

def nameLimit : Nat := 255

def ValidName (name : Bytes) : Prop :=
  name ≠ [] ∧ name ≠ [Path.dot] ∧ name ≠ [Path.dot, Path.dot] ∧ Path.slash ∉ name ∧ 0 ∉ name ∧
    name.length ≤ nameLimit

instance (name : Bytes) : Decidable (ValidName name) :=
  inferInstanceAs (Decidable (name ≠ [] ∧ name ≠ [Path.dot] ∧ name ≠ [Path.dot, Path.dot] ∧
    Path.slash ∉ name ∧ 0 ∉ name ∧ name.length ≤ nameLimit))

def names : Folder → List Bytes
  | .empty => []
  | .file name _ _ rest | .link name _ rest | .sub name _ rest => name :: rest.names

/-- Every folder's entries have valid names in increasing order. -/
def WellFormed : Folder → Prop
  | .empty => True
  | .file name _ _ rest | .link name _ rest =>
    ValidName name ∧ (∀ n ∈ rest.names, name < n) ∧ rest.WellFormed
  | .sub name entries rest =>
    ValidName name ∧ (∀ n ∈ rest.names, name < n) ∧ entries.WellFormed ∧ rest.WellFormed

instance decidableWellFormed : (folder : Folder) → Decidable folder.WellFormed
  | .empty => isTrue trivial
  | .file name _ _ rest | .link name _ rest =>
    have := decidableWellFormed rest
    inferInstanceAs (Decidable (ValidName name ∧ (∀ n ∈ rest.names, name < n) ∧ rest.WellFormed))
  | .sub name entries rest =>
    have := decidableWellFormed entries
    have := decidableWellFormed rest
    inferInstanceAs (Decidable (ValidName name ∧ (∀ n ∈ rest.names, name < n) ∧
      entries.WellFormed ∧ rest.WellFormed))

end Folder

end Codemod
