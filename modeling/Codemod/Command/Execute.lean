import Codemod.Command.Migrate
import Codemod.Log.Filter
import Codemod.Settings.Load
import Codemod.Toml.Writer

/-! The whole program as a function of its arguments, its environment and the disk. -/
namespace Codemod.Command

structure Invocation where
  arguments : List String
  environment : List (String × String)
  disk : Disk
  timestamp : String
  schedule : Schedule

structure Conclusion where
  code : ExitCode
  out : String
  err : String
  usage : Option Usage
  /-- The records that pass the filter. -/
  log : List Log.Record
  logForm : Log.Form
  run : Option Run
  disk : Disk

def Conclusion.errors (c : Conclusion) (timestamp : String) : String :=
  String.join (c.log.map (Log.Record.written c.logForm timestamp)) ++ c.err

/-- The form of the log that settings ask for. Lines are coloured unless the environment is
against it. -/
def logForm (i : Invocation) (s : Settings) : Log.Form :=
  if s.logging.jsonFormat then .json
  else .lines (((i.environment.lookup Environment.plainVariable).getD "").isEmpty)

/-- A fault that ends the program before anything is touched and logged. -/
def refuse (disk : Disk) (text : String) : Conclusion :=
  ⟨.misconfigured, "", s!"error: {text}\n", none, [], .lines true, none, disk⟩

def abort (disk : Disk) : Conclusion :=
  ⟨.aborted, "", "", none, [], .lines true, none, disk⟩

def startRecords (level : Log.Level) (file : Option Path) : List Log.Record :=
  ⟨.debug, .logging, s!"Logging initialized with level: {level.name}", []⟩ ::
    match file with
    | some path => [⟨.info, .command, s!"Configuration loaded from {path.display}", []⟩]
    | none => []

def perform (i : Invocation) (a : Arguments) (s : Settings) (level : Log.Level)
    (file : Option Path) (filter : Log.Filter) : Conclusion :=
  let form := logForm i s
  let log (records : List Log.Record) : List Log.Record :=
    (startRecords level file ++ records).filter filter.admits
  if a.printConfig then ⟨.success, s.toml, "", none, log [], form, none, i.disk⟩
  else
    let m := migrate i.schedule i.timestamp a.root s a.format a.listRules i.disk
    match m.result with
    | .error fault =>
      let err := s!"error: {fault.chain}\n"
      ⟨.misconfigured, m.out, err, none, log m.records, form, none, m.disk⟩
    | .ok code =>
      let err := match m.failure with
        | some text => s!"error: {text}\n"
        | none => ""
      ⟨code, m.out, err, none, log m.records, form, m.run, m.disk⟩

namespace Arguments

def source (a : Arguments) : Settings.Source := ⟨a.config, some a.root, Environment.programName⟩

def settings (a : Arguments) (disk : Disk) (environment : List (String × String)) :
    Except Settings.Failure Settings :=
  (Settings.load disk a.source environment).map a.override

/-- The files that are read and written if arguments are carried out. -/
def wantedFiles (a : Arguments) (disk : Disk) (environment : List (String × String)) : List Path :=
  match a.settings disk environment with
  | .error _ => []
  | .ok settings =>
    match settings.rulebook with
    | .error _ => []
    | .ok book => (editorFor a.root settings).candidates book disk

end Arguments

/-- Carries out arguments with the settings that hold for them. Nothing is carried out if a variable
or the filter of the log is torn. -/
def execute (i : Invocation) (a : Arguments) : Conclusion :=
  match a.settings i.disk i.environment with
  | .error .torn => abort i.disk
  | .error (.fault fault) => refuse i.disk s!"Failed to load configuration: {fault.chain}"
  | .ok settings =>
    match Log.Level.parse settings.logging.level with
    | .error fault => refuse i.disk fault.chain
    | .ok level =>
      match Log.Filter.choose? level (i.environment.lookup Environment.logVariable) with
      | some filter => perform i a settings level (a.source.file? i.disk) filter
      | none => abort i.disk

def run (i : Invocation) : Conclusion :=
  match Arguments.parse i.arguments with
  | .error usage => ⟨usage.exitCode, "", "", some usage, [], .lines true, none, i.disk⟩
  | .ok a => execute i a

end Codemod.Command
