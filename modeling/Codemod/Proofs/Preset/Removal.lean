import Codemod.Proofs.Rule.Removal
import Codemod.Proofs.Rulebook.Validity
import Codemod.Proofs.Run.Composition

/-! What the built-in rules leave nothing of. The rules that delete imports can bring together what
stood around them, so that old names appear which were not in the text before. The four old names
whose rules come after all deletions are gone for good: their own rules remove them, and no later
rule brings them back. `import Ui` and `import Dom` begin alike, but what this letter could complete
was complete before. -/
namespace Codemod.Preset

/-- The old names whose rules stand behind those that delete. -/
def oldNames : List String := ["import Ui", "Ui.Action", "Ui.DragDrop", "Modular Ui"]

/-- The later rule has no share in what the rule removes, if that is an old name. -/
def Preserves (r later : Rule) : Prop :=
  r.pattern ∈ oldNames →
    Rule.Spares r.pattern.toList later.pattern.toList later.replacement.toList

instance (r later : Rule) : Decidable (Preserves r later) :=
  inferInstanceAs (Decidable (_ → _))

theorem elmDom_preserves :
    (∀ r ∈ elmDomRules, Preserves r r) ∧ elmDomRules.Pairwise Preserves := by
  decide +kernel

theorem exists_rule_of_oldName : ∀ old ∈ oldNames, ∃ r ∈ elmDomRules, r.pattern = old := by
  decide +kernel

variable {before after : List Rule} {r : Rule}

theorem own_spares (split : elmDomRules = before ++ r :: after) (old : r.pattern ∈ oldNames) :
    Rule.Spares r.pattern.toList r.pattern.toList r.replacement.toList :=
  elmDom_preserves.1 r (by simp [split]) old

theorem later_spares (split : elmDomRules = before ++ r :: after) (old : r.pattern ∈ oldNames) :
    ∀ later ∈ after,
      Rule.Spares r.pattern.toList later.pattern.toList later.replacement.toList := by
  intro later member
  have ordered := elmDom_preserves.2
  rw [split] at ordered
  have behind := (List.pairwise_append.mp ordered).2.1
  exact (List.pairwise_cons.mp behind).1 later member old

theorem not_infix_elmDom {old : String} (member : old ∈ oldNames) (text : String) :
    ¬old.toList <:+: (Rule.replaceAll elmDomRules text).toList := by
  obtain ⟨r, inside, rfl⟩ := exists_rule_of_oldName old member
  obtain ⟨before, after, split⟩ := List.append_of_mem inside
  rw [split]
  exact Rule.pattern_not_infix_replaceAll (own_spares split member) (later_spares split member)
    before text

/-- None of the old names is found in a text after the rules of the preset: its own rule removes it
from every text, and each later rule leaves every text without it as it is in this. So it is found in
no file after a real run with these rules that has passed, whatever the extensions. -/
theorem elmDom_removes_oldNames :
    (∀ before r after, elmDomRules = before ++ r :: after → r.pattern ∈ oldNames →
      (∀ text, ¬r.pattern.toList <:+: (r.replaceIn text).toList) ∧
      ∀ later ∈ after, ∀ text : String, ¬r.pattern.toList <:+: text.toList →
        ¬r.pattern.toList <:+: (later.replaceIn text).toList) ∧
    (∀ text, ∀ old ∈ oldNames, ¬old.toList <:+: (Rule.replaceAll elmDomRules text).toList) ∧
    ∀ (e : Editor) (schedule : Schedule) (preset book : Rulebook) (w final : Workspace) (r : Run)
      (timestamp : String),
      w.disk.root.WellFormed → schedule.Permutes → e.dryRun = false →
      find "elm-dom" = .ok preset → book.rules = preset.rules →
      e.run schedule book w = (.ok r, final) → (r.report timestamp).passed →
      ∃ files, Scan.collect w.disk (e.search book.extensions) = .ok files ∧
        Scan.collect final.disk (e.search book.extensions) = .ok files ∧
        ∀ p ∈ files, ∃ text, final.disk.readText p = .ok text ∧
          ∀ old ∈ oldNames, ¬old.toList <:+: text.toList := by
  refine ⟨?_, fun text old member => not_infix_elmDom member text, ?_⟩
  · intro before r after split old
    refine ⟨Rule.pattern_not_infix_replaceIn (own_spares split old), ?_⟩
    intro later member text absent
    exact Rule.not_infix_replaceIn (later_spares split old later member) absent
  · intro e schedule preset book w final r timestamp sound orders real found same ran passed
    have rules : book.rules = elmDomRules := same.trans (Rulebook.rules_of_build (build_of_find found))
    have done : r.progress = .done := by
      simpa [Run.report, Report.assemble, Report.passed, Report.summarize] using passed
    obtain ⟨files, collected, collected', texts⟩ :=
      Editor.readText_of_done sound orders real (by simp [rules, elmDomRules]) ran done
    refine ⟨files, collected, collected', fun p member => ?_⟩
    obtain ⟨text, _, read⟩ := texts p member
    rw [rules] at read
    exact ⟨_, read, fun old member => not_infix_elmDom member text⟩

/-- Where an import is deleted, what stood around it becomes an old name, and is replaced in its
turn. A name that lacks its last letter does not get it from a rule that writes this letter first. -/
theorem elmDom_removes_oldNames_glued :
    ¬"Modular Ui".toList <:+:
        (Rule.replaceIn ⟨"import Ui", "import Dom"⟩ "Modular U import Ui").toList ∧
    ∃ r final text, (⟨[Path.slash], [], false, true⟩ : Editor).run Schedule.inOrder
        ⟨elmDomRules, elmDomExtensions⟩
        ⟨chainedDisk (Utf8.encode "import import Dom.ElementUi"), []⟩ = (.ok r, final) ∧
      (r.report "").passed ∧ final.disk.readText (Path.ofText "/y.md") = .ok text ∧
      ∀ old ∈ oldNames, ¬old.toList <:+: text.toList := by
  obtain ⟨each, _, runs⟩ := elmDom_removes_oldNames
  constructor
  · have later := (each (elmDomRules.take 10) ⟨"Modular Ui", "elm-dom"⟩ (elmDomRules.drop 11) rfl
      (by decide +kernel)).2
    exact later ⟨"import Ui", "import Dom"⟩ (by decide +kernel) "Modular U import Ui"
      (by decide +kernel)
  · obtain ⟨r, final, ran, passed⟩ : ∃ r final, (⟨[Path.slash], [], false, true⟩ : Editor).run
        Schedule.inOrder ⟨elmDomRules, elmDomExtensions⟩
        ⟨chainedDisk (Utf8.encode "import import Dom.ElementUi"), []⟩ = (.ok r, final) ∧
          (r.report "").passed := ⟨_, _, rfl, by decide +kernel⟩
    have orders : Schedule.inOrder.Permutes := fun _ files => .refl files
    have found : find "elm-dom" = .ok ⟨elmDomRules, elmDomExtensions⟩ := by decide +kernel
    obtain ⟨files, collected, _, clean⟩ := runs _ _ _ _ _ _ _ _
      (chainedDisk_wellFormed _) orders rfl found rfl ran passed
    have listed : Scan.collect (chainedDisk (Utf8.encode "import import Dom.ElementUi"))
        ((⟨[Path.slash], [], false, true⟩ : Editor).search elmDomExtensions) =
        .ok (["/x.md", "/y.md", "/z.md"].map Path.ofText) := by decide +kernel
    have inside : Path.ofText "/y.md" ∈ files := by
      rw [← Except.ok.inj (listed.symm.trans collected)]
      exact .tail _ (.head _)
    obtain ⟨text, read, absent⟩ := clean _ inside
    exact ⟨r, final, text, ran, passed, read, absent⟩

end Codemod.Preset
