import Codemod.Data.Basic
import Codemod.Text.Digits

/-! Reading records from structured data. A record is a table with its fields' names, or a list of
its fields in declaration order; a choice is a record whose first field, the tag, names the
alternative. -/
namespace Codemod.Data

def text? : Data → Option String
  | .text s => some s
  | _ => none

def flag? : Data → Option Bool
  | .flag b => some b
  | _ => none

/-- A counter is a whole number of at most 64 bits. -/
def count? : Data → Option Nat
  | .integer (.ofNat n) => if n < Text.unsignedLimit then some n else none
  | _ => none

def each? (read : Data → Option α) : Data → Option (List α)
  | .list items => items.mapM read
  | _ => none

def nullable (read : Data → Option α) : Data → Option (Option α)
  | .null => some none
  | value => (read value).map some

/-- How strictly a record is read. Exactly, it has no items beyond its fields and names none of them
twice. Otherwise further items are ignored, and no name stands twice. -/
inductive Extent where
  | exact
  | lenient
deriving DecidableEq, Repr

inductive Slot where
  | given (value : Data)
  /-- The record names its fields, and not this one. -/
  | unnamed
  /-- The record lists its fields and ends before this one. -/
  | beyond

namespace Slot

def required (read : Data → Option α) : Slot → Option α
  | .given value => read value
  | .unnamed | .beyond => none

def optional (read : Data → Option α) : Slot → Option (Option α)
  | .given value => nullable read value
  | .unnamed => some none
  | .beyond => none

def orElse (fallback : α) (read : Data → Option α) : Slot → Option α
  | .given value => read value
  | .unnamed | .beyond => some fallback

end Slot

@[simp] def repeats (entries : List (String × Data)) (name : String) : Bool :=
  match entries with
  | [] => false
  | (key, _) :: rest => if key = name then (rest.lookup name).isSome else repeats rest name

def positions : Nat → List Data → List Slot
  | 0, _ => []
  | n + 1, [] => .beyond :: positions n []
  | n + 1, item :: items => .given item :: positions n items

def slots (extent : Extent) (names : List String) : Data → Option (List Slot)
  | .table entries =>
    if extent = .exact ∧ names.any (repeats entries) then none
    else some (names.map fun name =>
      match entries.lookup name with
      | some value => .given value
      | none => .unnamed)
  | .list items =>
    if extent = .exact ∧ names.length < items.length then none
    else some (positions names.length items)
  | _ => none

/-- The alternative that the tag names, and the record without the tag. -/
def tagged (tag : String) : Data → Option (String × Data)
  | .table entries =>
    if repeats entries tag then none
    else match entries.lookup tag with
      | some (.text name) => some (name, .table (entries.filter (·.1 != tag)))
      | _ => none
  | .list (.text name :: items) => some (name, .list items)
  | _ => none

end Codemod.Data
