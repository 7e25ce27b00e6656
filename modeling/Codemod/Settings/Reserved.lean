import Codemod.Data.Basic

/-! Reserved names of entries in a settings file. A table inside of another value may stand for a
single value, which one of its entries holds under a reserved name. Another name numbers values,
and a file does not number any. -/
namespace Codemod.Settings.Reserved

/-- A table with an entry of this name stands for the value of the entry. -/
def valueName : String := "___figment_value_value"

/-- A table with an entry of this name stands for nothing. -/
def numberName : String := "___figment_value_id"

mutual

def resolve? : Data → Option Data
  | .table entries => do
    let entries ← resolveEntries? entries
    return (entries.lookup valueName).getD (.table entries)
  | .list items => (resolveItems? items).map .list
  | value => some value

def resolveItems? : List Data → Option (List Data)
  | [] => some []
  | item :: rest => do return (← resolve? item) :: (← resolveItems? rest)

def resolveEntries? : List (String × Data) → Option (List (String × Data))
  | [] => some []
  | (name, value) :: rest =>
    if name = numberName then none
    else do return (name, ← resolve? value) :: (← resolveEntries? rest)

end

/-- What the values of a whole file stand for. The file itself is a table and nothing else. -/
def ofFile? : Data → Option Data
  | .table entries => do
    let entries ← entries.mapM fun entry => (resolve? entry.2).map (entry.1, ·)
    return .table entries
  | value => some value

end Codemod.Settings.Reserved
