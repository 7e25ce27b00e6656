import Codemod.Rule.Data
import Codemod.Rulebook.Basic

/-! Rulebooks as structured data. -/
namespace Codemod

namespace Rulebook

def toData (book : Rulebook) : Data :=
  .table [("rules", .list (book.rules.map Rule.toData)), ("extensions", .texts book.extensions)]

/-- A rulebook that is read is checked like one that is built; `none` if the data has another
form. -/
def ofData? (d : Data) : Option (Except Fault Rulebook) := do
  match ← d.slots .exact ["rules", "extensions"] with
  | [rules, extensions] =>
    return build (← rules.required (Data.each? Rule.ofData?))
      (← extensions.required (Data.each? Data.text?))
  | _ => none

end Rulebook

end Codemod
