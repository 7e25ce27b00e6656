/-! Values of structured data: what a configuration file, the environment or a report in JSON
holds before it is read as one of the program's own types. -/
namespace Codemod

inductive Data where
  | null
  | flag (value : Bool)
  | integer (value : Int)
  /-- A number with a fraction or an exponent, as it was written. -/
  | real (literal : String)
  | text (value : String)
  | list (items : List Data)
  | table (entries : List (String × Data))
deriving Repr, Inhabited

namespace Data

def ofNat (n : Nat) : Data := .integer n

def texts (values : List String) : Data := .list (values.map .text)

end Data

end Codemod
