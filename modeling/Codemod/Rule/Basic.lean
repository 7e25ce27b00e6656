import Codemod.Rule.Segments

/-! Literal find-and-replace rules. No character of a pattern has a special meaning, and an empty
replacement deletes. -/
namespace Codemod

structure Rule where
  pattern : String
  replacement : String
deriving DecidableEq, Repr, Inhabited

namespace Rule

def isValid (r : Rule) : Bool := r.pattern != ""

def isDeletion (r : Rule) : Bool := r.replacement == ""

/-- How often the pattern occurs in the text, without overlaps; an empty pattern never does. -/
def count (r : Rule) (text : String) : Nat :=
  if r.isValid then (segments r.pattern.toList text.toList).length - 1 else 0

/-- The text with every occurrence replaced, and their number; `none` if there is none. -/
def replaceIn? (r : Rule) (text : String) : Option (String × Nat) :=
  if r.count text = 0 then none
  else some (String.ofList (r.replacement.toList.intercalate
    (segments r.pattern.toList text.toList)), r.count text)

def replaceIn (r : Rule) (text : String) : String := ((r.replaceIn? text).map (·.1)).getD text

def display (r : Rule) : String := s!"'{r.pattern}' -> '{r.replacement}'"

end Rule

end Codemod
