import Codemod.Run.Basic

/-! What a person sees of a run: a line for each rule, which is completed when the rule is. -/
namespace Codemod.Notice

def text : Notice → String
  | .started _ rule => s!"Replacing '{rule.pattern}' with '{rule.replacement}'..."
  | .completed .. => "...done!\n"
  | .failed .. => "\n"
  | .unmatched .. | .finished _ => ""

def console (notices : List Notice) : String := String.join (notices.map text)

end Codemod.Notice
