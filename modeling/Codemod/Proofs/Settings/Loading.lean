import Codemod.Command.Arguments
import Codemod.Proofs.Settings.Layers
import Codemod.Settings.Load

/-! Settings as they are loaded from a file and variables and then changed by arguments. What both
layers hold decides on them, and with it on whether they are loaded at all. -/
namespace Codemod

/-- What arguments change in settings. -/
structure Command.Arguments.Overrides (a : Arguments) (s : Settings) : Prop where
  /-- A preset takes the place of the rules; configured extensions stay. -/
  preset : ∀ name, a.preset = some name → (a.override s).rulebook =
    (Preset.find name).bind fun book =>
      if s.extensions = [] then .ok book else book.withExtensions s.extensions
  rules : a.preset = none → (a.override s).rulebook = s.rulebook
  extensions : (a.override s).extensions = s.extensions
  exclude : (a.override s).exclude = s.exclude
  dryRun : (a.override s).dryRun = (a.dryRun || s.dryRun)
  parallel : (a.override s).parallel = (!a.sequential && s.parallel)
  logging : (a.override s).logging = s.logging

theorem Command.Arguments.overrides (a : Arguments) (s : Settings) : a.Overrides s where
  preset name given := by
    cases extensions : s.extensions with
    | nil =>
      simp only [Settings.rulebook, override, given, extensions, Option.isSome_some, if_true,
        Option.some_or, Option.getD_some]
      cases Preset.find name <;> rfl
    | cons first more =>
      simp only [Settings.rulebook, override, given, extensions, Option.isSome_some, if_true,
        Option.some_or, Option.getD_some]
      rfl
  rules absent := by
    simp [Settings.rulebook, override, absent]
  extensions := rfl
  exclude := rfl
  dryRun := rfl
  parallel := rfl
  logging := rfl

namespace Settings

variable {d : Disk} {source : Source} {environment other : List (String × String)} {s : Settings}
  {file top top' : Data}

/-- What the settings file holds, if there is one. -/
def Source.layer? (source : Source) (d : Disk) : Option Data :=
  match source.file? d with
  | some path => fileLayer? d path
  | none => some (.table [])

theorem isTable_of_fileLayer? {path : Path} (layer : fileLayer? d path = some file) :
    file.isTable = true := by
  rw [fileLayer?] at layer
  split at layer
  · obtain rfl := Option.some.inj layer
    rfl
  · split at layer
    · obtain ⟨read, found, resolved⟩ := Option.bind_eq_some_iff.mp layer
      simp only [Toml.read, Option.bind_eq_bind, Option.bind_eq_some_iff, Option.pure_def,
        Option.some.injEq] at found
      obtain ⟨_, _, _, _, _, _, rfl⟩ := found
      simp only [Reserved.ofFile?, Option.bind_eq_bind, Option.bind_eq_some_iff, Option.pure_def,
        Option.some.injEq] at resolved
      obtain ⟨_, _, rfl⟩ := resolved
      rfl
    · cases layer

theorem Source.isTable_of_layer? (layer : source.layer? d = some file) : file.isTable = true := by
  rw [Source.layer?] at layer
  split at layer
  · exact isTable_of_fileLayer? layer
  · obtain rfl := Option.some.inj layer
    rfl

theorem ofLayers_eq_ok_iff {layers : Data} :
    ofLayers layers = .ok s ↔ ofData? .lenient layers = some s ∧ s.check = .ok () := by
  rw [ofLayers]
  cases ofData? .lenient layers with
  | none => simp
  | some read =>
    cases checked : read.check with
    | error fault =>
      simp only [checked, Except.map, Option.some.injEq]
      constructor
      · rintro ⟨⟩
      · rintro ⟨rfl, passed⟩
        rw [checked] at passed
        cases passed
    | ok _ =>
      simp only [checked, Except.map, Except.ok.injEq, Option.some.injEq]
      constructor
      · rintro rfl
        exact ⟨rfl, checked⟩
      · exact And.left

theorem ofLayers_merge_iff (fileTable : file.isTable = true) (topTable : top.isTable = true) :
    ofLayers ((default.toData.merge file).merge top) = .ok s ↔
      Layered file top s ∧ s.check = .ok () := by
  obtain ⟨lower, rfl⟩ := Data.exists_of_isTable fileTable
  obtain ⟨upper, rfl⟩ := Data.exists_of_isTable topTable
  rw [ofLayers_eq_ok_iff, ofData?_merge_iff]

/-- Loading once the file is known to be there, or that there is none. -/
theorem load_of_present (present : (source.file? d).all d.isFile) :
    load d source environment =
      match Environment.layer? source.program environment, source.layer? d with
      | none, _ => .error .torn
      | some _, none => .error (.fault (.configuration .settingsMalformed))
      | some top, some file => (ofLayers ((default.toData.merge file).merge top)).mapError .fault := by
  cases located : source.file? d with
  | none =>
    simp only [load, Source.layer?, located, pure_bind]
    cases Environment.layer? source.program environment <;> rfl
  | some path =>
    rw [located, Option.all_some] at present
    simp only [load, Source.layer?, located, present, if_true, pure_bind]
    cases Environment.layer? source.program environment <;> cases fileLayer? d path <;> rfl

theorem present_of_load (loaded : load d source environment = .ok s) :
    (source.file? d).all d.isFile := by
  cases located : source.file? d with
  | none => rfl
  | some path =>
    cases stands : d.isFile path with
    | true => exact stands
    | false =>
      simp only [load, located, stands] at loaded
      cases loaded

theorem mapError_eq_ok_iff {read : Except Fault Settings} :
    read.mapError Failure.fault = .ok s ↔ read = .ok s := by
  cases read <;> simp [Except.mapError]

theorem load_eq_ok_iff (present : (source.file? d).all d.isFile) :
    load d source environment = .ok s ↔ ∃ file top, source.layer? d = some file ∧
      Environment.layer? source.program environment = some top ∧ Layered file top s ∧
      s.check = .ok () := by
  rw [load_of_present present]
  cases upper : Environment.layer? source.program environment with
  | none => simp
  | some top =>
    cases lower : source.layer? d with
    | none => simp
    | some file =>
      have read := ofLayers_merge_iff (s := s) (Source.isTable_of_layer? lower)
        (Environment.isTable_of_layer? upper)
      simp [mapError_eq_ok_iff, read]

/-- Key by key, loaded settings are what variables give, or else the file, or else the defaults.
Variables about none of them change nothing, and arguments change what they name. -/
theorem load_layers (loaded : load d source environment = .ok s)
    (apart : Environment.Apart source.program environment) :
    ∃ file top, source.layer? d = some file ∧
      Environment.Gives source.program environment top ∧ Layered file top s ∧
      (∀ other, Environment.Apart source.program other → Environment.Untorn source.program other →
        (∀ v p, Environment.place? source.program v.1 = some p → Concerns file p →
          (v ∈ environment ↔ v ∈ other)) → load d source other = .ok s) ∧
      ∀ a : Command.Arguments, a.Overrides s := by
  have present := present_of_load loaded
  obtain ⟨file, top, lower, upper, layered, checked⟩ := (load_eq_ok_iff present).mp loaded
  have gives := Environment.layer?_gives upper apart
  refine ⟨file, top, lower, gives, layered, ?_, fun a => a.overrides s⟩
  intro other apart' untorn agree
  obtain ⟨top', upper'⟩ := Environment.exists_layer? untorn
  have gives' := Environment.layer?_gives upper' apart'
  exact (load_eq_ok_iff present).mpr
    ⟨file, top', lower, upper', layered.of_agree gives gives' agree, checked⟩

/-- A disk with a settings file in the current folder. -/
def diskHolding (text : String) : Disk :=
  ⟨.file (Path.ofText fileName) (Utf8.encode text) 1 .empty, []⟩

def currentFolder : Source := ⟨none, some (Path.ofText "."), Environment.programName⟩

def nestedFile : String :=
  "dry_run = true\nexclude = [\"a/\", \"b/\"]\n[logging]\nlevel = \"info\"\n"

def nestedVariables : List (String × String) :=
  [("RECODE_EXCLUDE", "[c/]"), ("recode_logging__json_format", " true"), ("RECODE_LOG", "off"),
    ("PATH", "/bin")]

def nested : Settings :=
  { default with exclude := ["c/"], dryRun := true, logging := ⟨"info", true⟩ }

theorem load_layers_nested :
    load (diskHolding nestedFile) currentFolder nestedVariables = .ok nested ∧
    Environment.Apart currentFolder.program nestedVariables ∧
    ∃ file top, currentFolder.layer? (diskHolding nestedFile) = some file ∧
      Environment.Gives currentFolder.program nestedVariables top ∧ Layered file top nested ∧
      (∀ other, Environment.Apart currentFolder.program other →
        Environment.Untorn currentFolder.program other →
        (∀ v p, Environment.place? currentFolder.program v.1 = some p → Concerns file p →
          (v ∈ nestedVariables ↔ v ∈ other)) →
        load (diskHolding nestedFile) currentFolder other = .ok nested) ∧
      ∀ a : Command.Arguments, a.Overrides nested := by
  have loaded : load (diskHolding nestedFile) currentFolder nestedVariables = .ok nested := by
    decide +kernel
  have apart : Environment.Apart currentFolder.program nestedVariables := by decide +kernel
  exact ⟨loaded, apart, load_layers loaded apart⟩

def tabularFile : String := "[logging]\njson_format = true\n"

def listedVariables : List (String × String) := [("RECODE_LOGGING", "[\"debug\"]")]

/-- A list in place of `logging` hides what the file holds for an item that the list leaves out. -/
theorem load_listed :
    load (diskHolding tabularFile) currentFolder listedVariables =
      .ok { default with logging := ⟨"debug", false⟩ } ∧
    Environment.Apart currentFolder.program listedVariables ∧
    ((currentFolder.layer? (diskHolding tabularFile)).bind
      (Data.at? ["logging", "json_format"])).bind Data.flag? = some true ∧
    ((Environment.layer? currentFolder.program listedVariables).bind
      (Data.at? ["logging", "json_format"])).isNone := by
  decide +kernel

end Settings

end Codemod
