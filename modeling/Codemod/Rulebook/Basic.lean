import Codemod.Fault
import Codemod.Rule.Basic
import Codemod.Text.Blank

/-! Ordered rules and the file extensions they are applied to. Rules keep the order in which they
are given, since each sees what the rules before it wrote. -/
namespace Codemod

structure Rulebook where
  rules : List Rule
  /-- Extensions without their leading dot, in increasing order. -/
  extensions : List String
deriving DecidableEq, Repr

namespace Rulebook

/-- An extension as it is compared with file names: without white space around it and without
the dots in front. -/
def normalExtension (extension : String) : String :=
  String.ofList ((Text.trim extension.toList).dropWhile (· == '.'))

def insertOnce (x : String) : List String → List String
  | [] => [x]
  | y :: rest =>
    if x = y then y :: rest
    else if x < y then x :: y :: rest
    else y :: insertOnce x rest

def normalExtensions (extensions : List String) : List String :=
  ((extensions.map normalExtension).filter (· != "")).foldr insertOnce []

/-- Every rule has a pattern and some extension is left. -/
def build (rules : List Rule) (extensions : List String) : Except Fault Rulebook :=
  match rules.findIdx? (fun r => !r.isValid) with
  | some index => .error (.configuration (.emptyPattern index))
  | none =>
    match normalExtensions extensions with
    | [] => .error (.configuration .noExtensions)
    | first :: more => .ok ⟨rules, first :: more⟩

def withExtensions (book : Rulebook) (extensions : List String) : Except Fault Rulebook :=
  build book.rules extensions

def row (index : Nat) (rule : Rule) : String :=
  String.ofList ((toString (index + 1)).toList.leftpad 3 ' ') ++ ". " ++ rule.display ++ "\n"

def table (book : Rulebook) : String :=
  "Extensions: " ++ ", ".intercalate book.extensions ++ "\n" ++
    String.join (book.rules.zipIdx.map fun entry => row entry.2 entry.1)

end Rulebook

end Codemod
