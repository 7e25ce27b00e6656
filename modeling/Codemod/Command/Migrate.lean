import Codemod.Command.Arguments
import Codemod.Report.Json
import Codemod.Report.Text
import Codemod.Run.Console
import Codemod.Run.Records

/-! Resolving the settings' rulebook and running it, with what is shown of the run. A fault that is
found before the run starts leaves everything as it was and shows nothing. -/
namespace Codemod.Command

structure Migration where
  result : Except Fault ExitCode
  out : String
  /-- The first rule that failed, as it is reported on standard error. -/
  failure : Option String
  records : List Log.Record
  run : Option Run
  disk : Disk

def editorFor (root : Path) (s : Settings) : Editor := ⟨root, s.exclude, s.dryRun, s.parallel⟩

def Format.render (format : Format) (run : Run) (timestamp : String) : String :=
  match format with
  | .human => Notice.console (run.notices timestamp)
  | .report => Notice.console (run.notices timestamp) ++ "\n" ++ (run.report timestamp).text
  | .json => (run.report timestamp).json ++ "\n"

def failureText (a : Attempt) : Option String :=
  match a.outcome with
  | .failed reason _ => some s!"rule #{a.index + 1} {a.rule.display} failed: {reason}"
  | .applied _ => none

def shadowRecords (s : Settings) : List Log.Record :=
  match s.shadowedPreset? with
  | some preset => [⟨.warn, .settings, "Both rules and a preset are configured; using rules",
      [("preset", .text preset)]⟩]
  | none => []

/-- Runs the rulebook of the settings below a root, or only lists it. -/
def migrate (schedule : Schedule) (timestamp : String) (root : Path) (s : Settings)
    (format : Format) (listRules : Bool) (disk : Disk) : Migration :=
  let shadowed := shadowRecords s
  match s.rulebook with
  | .error fault => ⟨.error fault, "", none, shadowed, none, disk⟩
  | .ok book =>
    if listRules then ⟨.ok .success, book.table, none, shadowed, none, disk⟩
    else
      let ran := (editorFor root s).run schedule book ⟨disk, []⟩
      match ran.1 with
      | .error fault => ⟨.error fault, "", none, shadowed, none, ran.2.disk⟩
      | .ok run =>
        let report := run.report timestamp
        ⟨.ok report.exitCode, format.render run timestamp, report.failure?.bind failureText,
          shadowed ++ run.records, some run, ran.2.disk⟩

end Codemod.Command
