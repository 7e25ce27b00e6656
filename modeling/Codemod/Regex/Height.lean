/-! How deep the parts of a regular expression lie in each other. Nothing else about a part matters
after it has been read, so that its height stands for it. -/
namespace Codemod.Regex

def heightLimit : Nat := 250

/-- The height of a whole of these parts. A single part is the whole. -/
def joined : List Nat → Nat
  | [] => 0
  | [height] => height
  | heights => heights.foldr max 0 + 1

end Codemod.Regex
