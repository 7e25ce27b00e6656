import Codemod.Rulebook.Basic

/-! The built-in rulebooks. -/
namespace Codemod.Preset

def names : List String := ["elm-dom"]

def default : String := "elm-dom"

/-- Modules of Modular Ui and what takes their place in elm-dom. The general `import Ui` comes
last: earlier it would turn `import Ui.Modifier` into `import Dom.Modifier`, which the rules that
delete whole imports could no longer find. -/
def elmDomRules : List Rule := [
  ⟨"Ui.Element", "Dom.Element"⟩,
  ⟨"import Dom.Element", ""⟩,
  ⟨"Dom.Element.addAttribute", "Dom.addAttribute"⟩,
  ⟨"Ui.Modifier.add", "Dom.addClass"⟩,
  ⟨"Ui.Modifier.conditional", "Dom.addClassConditional"⟩,
  ⟨"import Ui.Modifier", ""⟩,
  ⟨"Ui.Attribute.add", "Dom.addAttribute"⟩,
  ⟨"import Ui.Attribute", ""⟩,
  ⟨"import Dom.Property", ""⟩,
  ⟨"import Dom.Attribute", ""⟩,
  ⟨"Modular Ui", "elm-dom"⟩,
  ⟨"Ui.DragDrop", "Dom.DragDrop"⟩,
  ⟨"Ui.Action", "Dom.addAction"⟩,
  ⟨"import Ui", "import Dom"⟩]

def elmDomExtensions : List String := ["elm", "md"]

def find (name : String) : Except Fault Rulebook :=
  if name = "elm-dom" then Rulebook.build elmDomRules elmDomExtensions
  else .error (.configuration (.unknownPreset name))

end Codemod.Preset
