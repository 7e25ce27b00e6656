import Codemod.Proofs.Data.Decode
import Codemod.Proofs.Data.Layers
import Codemod.Proofs.Disk.Reach
import Codemod.Proofs.Toml.Document
import Codemod.Settings.Load
import Mathlib.Control.Monad.Basic

/-! Settings that are written as a file are loaded as they were. The file holds all of them except
an absent preset, so the layer of the defaults below it does not show. -/
namespace Codemod

theorem Environment.layer?_of_foreign {program : String} {environment : List (String × String)}
    (foreign : ∀ v ∈ environment, place? program v.1 = none) :
    layer? program environment = some (.table []) := by
  rw [layer?]
  induction environment with
  | nil => rfl
  | cons first others ih =>
    obtain ⟨here, later⟩ := List.forall_mem_cons.mp foreign
    rw [List.foldlM_cons]
    simp only [here]
    exact ih later

namespace Settings

namespace Reserved

theorem resolveItems?_of_plain {items : List Data}
    (plain : ∀ d ∈ items, resolve? d = some d) : resolveItems? items = some items := by
  induction items with
  | nil => rw [resolveItems?]
  | cons d items ih =>
    obtain ⟨here, later⟩ := List.forall_mem_cons.mp plain
    rw [resolveItems?, here, ih later]
    rfl

theorem resolveEntries?_of_plain {entries : List (String × Data)}
    (plain : ∀ entry ∈ entries, entry.1 ≠ numberName ∧ resolve? entry.2 = some entry.2) :
    resolveEntries? entries = some entries := by
  induction entries with
  | nil => rw [resolveEntries?]
  | cons entry entries ih =>
    obtain ⟨⟨unnumbered, here⟩, later⟩ := List.forall_mem_cons.mp plain
    rw [resolveEntries?, if_neg unnumbered, here, ih later]
    rfl

/-- A list of plain values stands for itself. -/
theorem resolve?_list {items : List Data} (plain : ∀ d ∈ items, resolve? d = some d) :
    resolve? (.list items) = some (.list items) := by
  rw [resolve?, resolveItems?_of_plain plain]
  rfl

/-- A table of plain values stands for itself if none of them has a reserved name. -/
theorem resolve?_table {entries : List (String × Data)}
    (plain : ∀ entry ∈ entries, entry.1 ≠ numberName ∧ resolve? entry.2 = some entry.2)
    (unvalued : entries.lookup valueName = none) :
    resolve? (.table entries) = some (.table entries) := by
  rw [resolve?, resolveEntries?_of_plain plain]
  simp [unvalued]

theorem resolve?_texts (values : List String) :
    resolve? (.texts values) = some (.texts values) := by
  refine resolve?_list fun d member => ?_
  obtain ⟨value, _, rfl⟩ := List.mem_map.mp member
  rfl

theorem resolve?_rule (r : Rule) : resolve? r.toData = some r.toData := by
  refine resolve?_table ?_ ?_
  · simp [numberName, resolve?]
  · simp [valueName, List.lookup_cons]

theorem resolve?_logging (l : LogSettings) : resolve? l.toData = some l.toData := by
  refine resolve?_table ?_ ?_
  · simp [numberName, resolve?]
  · simp [valueName, List.lookup_cons]

theorem ofFile?_of_plain {entries : List (String × Data)}
    (plain : ∀ entry ∈ entries, resolve? entry.2 = some entry.2) :
    ofFile? (.table entries) = some (.table entries) := by
  have kept : entries.mapM (fun entry => (resolve? entry.2).map (entry.1, ·)) = some entries := by
    induction entries with
    | nil => rfl
    | cons entry entries ih =>
      obtain ⟨here, later⟩ := List.forall_mem_cons.mp plain
      simp [here, ih later]
  rw [ofFile?, kept]
  rfl

end Reserved

theorem ofFile?_fileEntries (s : Settings) : Reserved.ofFile? (.table (Toml.fileEntries s)) =
    some (.table (Toml.fileEntries s)) := by
  have extensions := Reserved.resolve?_texts s.extensions
  have exclude := Reserved.resolve?_texts s.exclude
  have logging := Reserved.resolve?_logging s.logging
  have rules : Reserved.resolve? (.list (s.rules.map Rule.toData)) =
      some (.list (s.rules.map Rule.toData)) := by
    refine Reserved.resolve?_list fun d member => ?_
    obtain ⟨r, _, rfl⟩ := List.mem_map.mp member
    exact Reserved.resolve?_rule r
  have none : Reserved.resolve? (.list []) = some (.list []) := rfl
  have text : ∀ t, Reserved.resolve? (.text t) = some (.text t) := fun _ => rfl
  have flag : ∀ b, Reserved.resolve? (.flag b) = some (.flag b) := fun _ => rfl
  apply Reserved.ofFile?_of_plain
  cases preset : s.preset <;> by_cases empty : s.rules = [] <;>
    simp [Toml.fileEntries, Toml.leading, Toml.rulesPart, preset, empty, none, text, flag,
      extensions, exclude, logging, rules]

/-- Over the defaults, what a file of settings holds gives all of them. -/
theorem merge_default (s : Settings) :
    default.toData.merge (.table (Toml.fileEntries s)) = s.toData := by
  have texts : ∀ lower upper, (Data.texts lower).merge (.texts upper) = .texts upper :=
    fun _ _ => rfl
  rcases s with ⟨_ | preset, _ | ⟨r, rules⟩, extensions, exclude, dryRun, parallel, logging⟩ <;>
    simp [Toml.fileEntries, Toml.leading, Toml.rulesPart, default, toData, Data.merge,
      Data.mergeEntries, List.lookup_cons, LogSettings.toData, texts]

theorem ruleOfData?_toData (extent : Data.Extent) (r : Rule) :
    ruleOfData? extent r.toData = some r := by
  simp [ruleOfData?, Rule.toData, Data.slots, List.lookup_cons, Data.Slot.required,
    Data.Slot.orElse, Data.text?]

theorem logOfData?_toData (extent : Data.Extent) (l : LogSettings) :
    LogSettings.ofData? extent l.toData = some l := by
  simp [LogSettings.ofData?, LogSettings.toData, Data.slots, List.lookup_cons, Data.Slot.orElse,
    Data.text?, Data.flag?]

theorem ofData?_toData (extent : Data.Extent) (s : Settings) :
    ofData? extent s.toData = some s := by
  have rules := Data.each?_map Rule.toData (ruleOfData?_toData extent) s.rules
  have extensions := Data.each?_texts s.extensions
  have exclude := Data.each?_texts s.exclude
  have logging := logOfData?_toData extent s.logging
  rcases s with ⟨_ | preset, _⟩ <;>
    simp_all [ofData?, toData, Data.slots, List.lookup_cons, Data.Slot.orElse, Data.nullable,
      Data.text?, Data.flag?]

theorem fileLayer?_toml {s : Settings} {d : Disk} {path : Path}
    (written : d.readText (d.absolute path) = .ok s.toml) :
    fileLayer? d path = some (.table (Toml.fileEntries s)) := by
  obtain ⟨content, revision, standing, _⟩ := Disk.readText_eq_ok_iff.mp written
  have present : d.isFile (d.absolute path) = true := by
    rw [Disk.isFile, standing]
  rw [fileLayer?, present, written]
  simp [Toml.read_toml, ofFile?_fileEntries]

/-- Settings that pass their check are loaded from the file that was written for them, if no
variable of the program lies on top of it. -/
theorem load_toml {s : Settings} (checked : s.check = .ok ()) {d : Disk} {source : Source}
    (path : Path) (found : source.file? d = some path) (present : d.isFile path = true)
    (written : d.readText (d.absolute path) = .ok s.toml)
    {environment : List (String × String)}
    (foreign : ∀ v ∈ environment, Environment.place? source.program v.1 = none) :
    load d source environment = .ok s := by
  have layers : (default.toData.merge (.table (Toml.fileEntries s))).merge (.table []) =
      s.toData := by
    rw [merge_default]
    exact Data.merge_empty _
  have whole : ofLayers s.toData = .ok s := by
    rw [ofLayers, ofData?_toData]
    simp only [checked]
    rfl
  simp only [load, found, present, fileLayer?_toml written,
    Environment.layer?_of_foreign foreign, if_true, pure_bind, layers, whole]
  rfl

/-- Settings whose strings take every form, with quotes at their ends. -/
def knotted : Settings where
  preset := some "\"'"
  rules := [⟨"\"\"\"'''\n", "\\\x7f"⟩, ⟨"\n''", ""⟩, ⟨"\r\"\"\"\"'''", "é'"⟩]
  extensions := ["elm"]
  exclude := ["", "'\\\"\"", "\t\u2028"]
  dryRun := true
  parallel := false
  logging := ⟨"Trace", true⟩

theorem load_toml_knotted :
    load ⟨.file (Path.ofText fileName) (Utf8.encode knotted.toml) 1 .empty, []⟩
      ⟨none, some (Path.ofText "."), Environment.programName⟩ [("RECODE", ""), ("PATH", "/bin")] =
    .ok knotted :=
  load_toml (by decide +kernel) (Path.ofText "./recode.toml") (by decide +kernel)
    (by decide +kernel)
    (Disk.readText_eq_ok_iff.mpr ⟨_, 1, rfl, Utf8.decode?_encode knotted.toml⟩) (by decide +kernel)

end Settings

end Codemod
