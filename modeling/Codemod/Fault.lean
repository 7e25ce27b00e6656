import Codemod.Path

/-! Everything that can go wrong, by cause, and the wording of each cause. -/
namespace Codemod

inductive Refusal where
  | notText
  | absent
  | notFolder
  | folder
  | nameTooLong
  | linkLoop
  | nulByte
  | listing (path : Path) (cause : Refusal)
  | described (text : String)
deriving DecidableEq, Repr

namespace Refusal

def message : Refusal → String
  | .notText => "stream did not contain valid UTF-8"
  | .absent => "No such file or directory (os error 2)"
  | .notFolder => "Not a directory (os error 20)"
  | .folder => "Is a directory (os error 21)"
  | .nameTooLong => "File name too long (os error 36)"
  | .linkLoop => "Too many levels of symbolic links (os error 40)"
  | .nulByte => "file name contained an unexpected NUL byte"
  | .listing path cause => s!"IO error for operation on {path.display}: {cause.message}"
  | .described text => text

end Refusal

inductive Problem where
  | emptyPattern (index : Nat)
  | noExtensions
  | unknownPreset (name : String)
  | unknownLevel (level : String)
  /-- An explicitly named settings file is not a file. -/
  | settingsMissing (path : Path)
  | settingsMalformed
  /-- A problem in its reporter's words, with the problem beneath it. -/
  | described (text : String) (cause : Option String)
deriving DecidableEq, Repr

namespace Problem

def message : Problem → String
  | .emptyPattern index => s!"rule #{index} has an empty pattern"
  | .noExtensions => "no file extensions configured"
  | .unknownPreset name => s!"unknown preset '{name}'"
  | .unknownLevel level => s!"Invalid log level: {level}. Use trace, debug, info, warn, or error"
  | .settingsMissing path => s!"Configuration file not found: {path.display}"
  | .settingsMalformed => "Failed to extract configuration"
  | .described text _ => text

def cause? : Problem → Option String
  | .described _ cause => cause
  | .settingsMalformed => some "the values do not have the form of settings"
  | _ => none

end Problem

inductive Fault where
  | configuration (problem : Problem)
  | rootMissing (path : Path)
  | access (path : Path) (cause : Refusal)
deriving DecidableEq, Repr

namespace Fault

def message : Fault → String
  | .configuration problem => s!"Configuration error: {problem.message}"
  | .rootMissing path => s!"Root directory not found: {path.display}"
  | .access path cause => s!"I/O error on {path.display}: {cause.message}"

/-- Whether the fault is found before any file is touched. -/
def isConfiguration : Fault → Bool
  | .configuration _ | .rootMissing _ => true
  | .access .. => false

def path? : Fault → Option Path
  | .rootMissing path | .access path _ => some path
  | .configuration _ => none

def cause? : Fault → Option String
  | .configuration problem => problem.cause?
  | .rootMissing _ => none
  | .access _ cause => some cause.message

/-- The message of the fault and of the problem beneath it, as it is shown when the program ends. -/
def chain (f : Fault) : String :=
  match f.cause? with
  | some cause => s!"{f.message}: {cause}"
  | none => f.message

end Fault

end Codemod
