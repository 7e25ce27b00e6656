import Codemod.Data.Layers
import Codemod.Disk.Access
import Codemod.Settings.Basic
import Codemod.Settings.Environment
import Codemod.Settings.Reserved
import Codemod.Toml.Document

/-! Loading settings. Three layers lie on top of each other: the defaults, a settings file, and
environment variables. Only what they hold together is checked. -/
namespace Codemod.Settings

structure Source where
  file : Option Path
  root : Option Path
  /-- What the names of the variables begin with. -/
  program : String
deriving DecidableEq, Repr

def fileName : String := "recode.toml"

def Source.default : Source := ⟨none, none, Environment.programName⟩

def Source.file? (s : Source) (d : Disk) : Option Path :=
  match s.file, s.root with
  | some path, _ => some path
  | none, some root =>
    let path := root.join (Path.ofText fileName)
    if d.isFile path then some path else none
  | none, none => none

/-- The layer of a settings file, if it has the form of one. The file is read by its path from the
top, and counts as empty if that path is too long to lead to it. The folders above the current one
are not searched then, so that a file of the same relative path there is left out of account. -/
def fileLayer? (d : Disk) (path : Path) : Option Data :=
  if !d.isFile (d.absolute path) then some (.table [])
  else match d.readText (d.absolute path) with
    | .ok text => (Toml.read text).bind Reserved.ofFile?
    | .error _ => none

def ofLayers (layers : Data) : Except Fault Settings :=
  match ofData? .lenient layers with
  | some settings => settings.check.map fun _ => settings
  | none => .error (.configuration .settingsMalformed)

inductive Failure where
  | fault (fault : Fault)
  /-- A string in a variable is torn. -/
  | torn
deriving DecidableEq, Repr

/-- Loads the settings. Variables are read before the form of the file counts. -/
def load (d : Disk) (source : Source) (environment : List (String × String)) :
    Except Failure Settings := do
  let file ← match source.file? d with
    | some path =>
      if d.isFile path then pure (fileLayer? d path)
      else throw (.fault (.configuration (.settingsMissing path)))
    | none => pure (some (.table []))
  match Environment.layer? source.program environment, file with
  | none, _ => throw .torn
  | some _, none => throw (.fault (.configuration .settingsMalformed))
  | some environment, some file =>
    (ofLayers ((default.toData.merge file).merge environment)).mapError .fault

end Codemod.Settings
