import Codemod.Path
import Codemod.Report.Basic
import Codemod.Settings.Basic
import Codemod.Text.Split

/-! The command line. Arguments are read from left to right. A value is checked only when the next
argument that is understood, or the end, shows that it is complete, so an argument that is not
understood is reported before an earlier value that is wrong. -/
namespace Codemod.Command

/-- What a run shows: progress lines, progress lines and the report, or the report as JSON. -/
inductive Format where
  | human
  | report
  | json
deriving DecidableEq, Repr

namespace Format

def name : Format → String
  | .human => "human"
  | .report => "report"
  | .json => "json"

def ofName? (text : String) : Option Format :=
  [Format.human, .report, .json].find? (·.name == text)

end Format

/-- Why arguments do not lead to a run. The last two are requests and no mistakes. -/
inductive Usage where
  | unknownArgument
  /-- A value is missing, empty or not one of the possible values. -/
  | invalidValue
  /-- An argument is given twice. -/
  | conflict
  | unneededValue
  | help
  | version
deriving DecidableEq, Repr

namespace Usage

def summary : String :=
  "Usage: recode [OPTIONS] [ROOT]\n\n" ++
  "Applies ordered literal find/replace rules across the tree below ROOT (default: .)\n\n" ++
  "Options:\n" ++
  "  -c, --config <PATH>     Configuration file (default: recode.toml in ROOT, if present)\n" ++
  "  -p, --preset <NAME>     Built-in rule table, instead of configured rules\n" ++
  "      --dry-run           Count what would change without writing any file\n" ++
  "      --sequential        Process the files of each rule one at a time\n" ++
  "      --format <FORMAT>   Output format: human, report or json\n" ++
  "      --list-rules        Print the resolved rule table and exit\n" ++
  "      --print-config      Print the effective configuration and exit\n" ++
  "  -h, --help              Print help\n" ++
  "  -V, --version           Print version\n"

def message : Usage → String
  | .unknownArgument => "error: unexpected argument\n\n" ++ summary
  | .invalidValue => "error: missing or invalid value for an argument\n\n" ++ summary
  | .conflict => "error: an argument cannot be used multiple times\n\n" ++ summary
  | .unneededValue => "error: unexpected value for an argument\n\n" ++ summary
  | .help => summary
  | .version => "recode 0.1.0\n"

def exitCode : Usage → ExitCode
  | .help | .version => .success
  | .unknownArgument | .invalidValue | .conflict | .unneededValue => .misconfigured

end Usage

inductive Place where
  | root
  | config
  | preset
  | format
deriving DecidableEq, Repr

inductive Switch where
  | dryRun
  | sequential
  | listRules
  | printConfig
  | help
  | version
deriving DecidableEq, Repr

inductive Argument where
  | value (place : Place)
  | switch (switch : Switch)
deriving DecidableEq, Repr

def longName? (name : String) : Option Argument :=
  match name with
  | "config" => some (.value .config)
  | "preset" => some (.value .preset)
  | "format" => some (.value .format)
  | "dry-run" => some (.switch .dryRun)
  | "sequential" => some (.switch .sequential)
  | "list-rules" => some (.switch .listRules)
  | "print-config" => some (.switch .printConfig)
  | "help" => some (.switch .help)
  | "version" => some (.switch .version)
  | _ => none

def shortName? (c : Char) : Option Argument :=
  if c = 'c' then some (.value .config)
  else if c = 'p' then some (.value .preset)
  else if c = 'h' then some (.switch .help)
  else if c = 'V' then some (.switch .version)
  else none

def acceptable (place : Place) (text : String) : Bool :=
  match place with
  | .root | .config => text != ""
  | .preset => true
  | .format => (Format.ofName? text).isSome

structure Reading where
  values : List (Place × String)
  switches : List Switch
  /-- The last value named, with its text once that is read. -/
  pending : Option (Place × Option String)
  rootGiven : Bool
  /-- Only arguments without a name follow. -/
  trailing : Bool
deriving DecidableEq, Repr

namespace Reading

def start : Reading := ⟨[], [], none, false, false⟩

def place (r : Reading) (place : Place) (text : String) : Except Usage Reading :=
  if (r.values.lookup place).isSome then .error .conflict
  else if acceptable place text then .ok { r with values := (place, text) :: r.values }
  else .error .invalidValue

def settle (r : Reading) : Except Usage Reading :=
  match r.pending with
  | none => .ok r
  | some (_, none) => .error .invalidValue
  | some (place, some text) => { r with pending := none }.place place text

def setSwitch (r : Reading) (s : Switch) : Except Usage Reading := do
  let r ← r.settle
  match s with
  | .help => throw .help
  | .version => throw .version
  | _ =>
    if r.switches.contains s then throw .conflict
    else return { r with switches := s :: r.switches }

def setValue (r : Reading) (place : Place) (attached : Option String) : Except Usage Reading := do
  let r ← r.settle
  match attached with
  | some text => r.place place text
  | none => return { r with pending := some (place, none) }

def waiting? (r : Reading) : Option Place :=
  match r.trailing, r.pending with
  | false, some (place, none) => some place
  | _, _ => none

/-- Reads an argument without a name. It is the value that is waited for, or else the root. -/
def unnamed (r : Reading) (text : String) : Except Usage Reading :=
  match r.waiting? with
  | some place => .ok { r with pending := some (place, some text) }
  | none =>
    if r.rootGiven then .error .unknownArgument
    else do
      let r ← r.settle
      return { r with pending := some (.root, some text), rootGiven := true }

def long (r : Reading) (letters : List Char) : Except Usage Reading :=
  let attached := if letters.contains '=' then
    some (String.ofList ((letters.dropWhile (· != '=')).drop 1)) else none
  match longName? (String.ofList (letters.takeWhile (· != '='))), attached with
  | some (.value place), attached => r.setValue place attached
  | some (.switch _), some _ => .error .unneededValue
  | some (.switch s), none => r.setSwitch s
  | none, _ => .error .unknownArgument

/-- Reads what follows one dash: letters, of which the first that takes a value takes the rest. -/
def short (r : Reading) : List Char → Except Usage Reading
  | [] => .ok r
  | c :: rest =>
    match shortName? c with
    | some (.value place) =>
      r.setValue place (match rest with
        | [] => none
        | '=' :: text => some (String.ofList text)
        | text => some (String.ofList text))
    | some (.switch s) => do short (← r.setSwitch s) rest
    | none => .error .unknownArgument

def read (r : Reading) (argument : String) : Except Usage Reading :=
  if r.trailing then r.unnamed argument
  else match argument.toList with
    | ['-', '-'] => .ok { r with trailing := true }
    | '-' :: '-' :: letters => r.long letters
    | '-' :: c :: letters => r.short (c :: letters)
    | _ => r.unnamed argument

end Reading

structure Arguments where
  root : Path
  config : Option Path
  preset : Option String
  dryRun : Bool
  sequential : Bool
  format : Format
  listRules : Bool
  printConfig : Bool
deriving DecidableEq, Repr

namespace Arguments

def ofReading (r : Reading) : Arguments where
  root := Path.ofText ((r.values.lookup .root).getD ".")
  config := (r.values.lookup .config).map Path.ofText
  preset := r.values.lookup .preset
  dryRun := r.switches.contains .dryRun
  sequential := r.switches.contains .sequential
  format := ((r.values.lookup .format).bind Format.ofName?).getD .human
  listRules := r.switches.contains .listRules
  printConfig := r.switches.contains .printConfig

def parse (arguments : List String) : Except Usage Arguments := do
  return ofReading (← (← arguments.foldlM Reading.read Reading.start).settle)

/-- Changes settings as the arguments say. A preset replaces the configured rules; switches can
only turn a dry run on and the parallel mode off. -/
def override (a : Arguments) (s : Settings) : Settings where
  preset := a.preset.or s.preset
  rules := if a.preset.isSome then [] else s.rules
  extensions := s.extensions
  exclude := s.exclude
  dryRun := a.dryRun || s.dryRun
  parallel := !a.sequential && s.parallel
  logging := s.logging

end Arguments

end Codemod.Command
