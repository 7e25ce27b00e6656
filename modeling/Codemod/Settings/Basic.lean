import Codemod.Data.Decode
import Codemod.Log.Level
import Codemod.Preset
import Codemod.Rule.Data
import Codemod.Scan.Exclude

/-! The settings of the program, with their defaults, and the rulebook they describe. -/
namespace Codemod

structure LogSettings where
  level : String
  jsonFormat : Bool
deriving DecidableEq, Repr

structure Settings where
  preset : Option String
  rules : List Rule
  /-- Where no extension is given, those of the preset hold. -/
  extensions : List String
  exclude : List String
  dryRun : Bool
  parallel : Bool
  logging : LogSettings
deriving DecidableEq, Repr

namespace LogSettings

def defaultLevel : String := "warn"

def default : LogSettings := ⟨defaultLevel, false⟩

def toData (l : LogSettings) : Data :=
  .table [("level", .text l.level), ("json_format", .flag l.jsonFormat)]

def ofData? (extent : Data.Extent) (d : Data) : Option LogSettings := do
  match ← d.slots extent ["level", "json_format"] with
  | [level, jsonFormat] =>
    return ⟨← level.orElse default.level Data.text?,
      ← jsonFormat.orElse default.jsonFormat Data.flag?⟩
  | _ => none

end LogSettings

namespace Settings

def default : Settings where
  preset := none
  rules := []
  extensions := []
  exclude := Scan.defaultExclude
  dryRun := false
  parallel := true
  logging := .default

/-- A rule in the settings; one without a replacement deletes. -/
def ruleOfData? (extent : Data.Extent) (d : Data) : Option Rule := do
  match ← d.slots extent ["find", "replace"] with
  | [pattern, replacement] =>
    return ⟨← pattern.required Data.text?, ← replacement.orElse "" Data.text?⟩
  | _ => none

def toData (s : Settings) : Data :=
  .table [("preset", (s.preset.map Data.text).getD .null), ("rules", .list (s.rules.map Rule.toData)),
    ("extensions", .texts s.extensions), ("exclude", .texts s.exclude),
    ("dry_run", .flag s.dryRun), ("parallel", .flag s.parallel), ("logging", s.logging.toData)]

def ofData? (extent : Data.Extent) (d : Data) : Option Settings := do
  match ← d.slots extent
      ["preset", "rules", "extensions", "exclude", "dry_run", "parallel", "logging"] with
  | [preset, rules, extensions, exclude, dryRun, parallel, logging] =>
    return {
      preset := ← preset.orElse default.preset (Data.nullable Data.text?)
      rules := ← rules.orElse default.rules (Data.each? (ruleOfData? extent))
      extensions := ← extensions.orElse default.extensions (Data.each? Data.text?)
      exclude := ← exclude.orElse default.exclude (Data.each? Data.text?)
      dryRun := ← dryRun.orElse default.dryRun Data.flag?
      parallel := ← parallel.orElse default.parallel Data.flag?
      logging := ← logging.orElse default.logging (LogSettings.ofData? extent) }
  | _ => none

/-- Rules win over a preset, and without either the default preset holds. A preset brings its own
extensions; rules need configured ones. -/
def rulebook (s : Settings) : Except Fault Rulebook :=
  match s.rules, s.extensions with
  | [], [] => Preset.find (s.preset.getD Preset.default)
  | [], first :: more => do
    let book ← Preset.find (s.preset.getD Preset.default)
    book.withExtensions (first :: more)
  | _ :: _, [] => .error (.configuration .noExtensions)
  | rule :: rules, first :: more => Rulebook.build (rule :: rules) (first :: more)

/-- Rules and a preset are both configured, so that the preset has no effect. -/
def shadowedPreset? (s : Settings) : Option String :=
  if s.rules.isEmpty then none else s.preset

def check (s : Settings) : Except Fault Unit := do
  let _ ← Log.Level.parse s.logging.level
  match s.rules.findIdx? (fun r => !r.isValid) with
  | some index => throw (.configuration (.emptyPattern index))
  | none => return ()

end Settings

end Codemod
