import Codemod.Data.Decode
import Codemod.Rule.Basic

/-! Rules as structured data. -/
namespace Codemod

namespace Rule

def toData (r : Rule) : Data :=
  .table [("find", .text r.pattern), ("replace", .text r.replacement)]

def ofData? (d : Data) : Option Rule := do
  match ← d.slots .exact ["find", "replace"] with
  | [pattern, replacement] =>
    return ⟨← pattern.required Data.text?, ← replacement.required Data.text?⟩
  | _ => none

end Rule

end Codemod
