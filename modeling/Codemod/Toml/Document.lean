import Codemod.Toml.Statement

/-! Documents in TOML: the tables that the statements of a text describe together. -/
namespace Codemod.Toml

structure Document where
  entries : Entries
  header : List String
deriving Repr

namespace Document

def empty : Document := ⟨[], []⟩

/-- Adds a statement. A key belongs to the table of the last header. -/
def add (doc : Document) : Statement → Option Document
  | .assign key value => do
    let entries ← doc.entries.modifyAt doc.header (Entries.assign key.path key.name value)
    return { doc with entries }
  | .table key => do
    let entries ← doc.entries.modifyAt key.path (Entries.openTable key.name)
    return ⟨entries, key.path ++ [key.name]⟩
  | .element key => do
    let entries ← doc.entries.modifyAt key.path (Entries.openElement key.name)
    return ⟨entries, key.path ++ [key.name]⟩

end Document

def read (text : String) : Option Data := do
  let statements ← statements (← tokens text.toList)
  let doc ← statements.foldlM Document.add Document.empty
  return .table (Node.entriesToData doc.entries)

end Codemod.Toml
