import Codemod.Log.Record
import Codemod.Run.Basic

/-! What a run logs. -/
namespace Codemod

open Log

namespace Visit

/-- Whether the rule matched in the file; failures are logged with the rule. -/
def records (e : Editor) (v : Visit) : List Record :=
  match v.result with
  | .ok 0 => [⟨.trace, .editing, "No match", [("path", .text v.path.display)]⟩]
  | .ok count => [⟨.debug, .editing, "Rewrote file", [("path", .text v.path.display),
      ("replacements", .ofNat count), ("dry_run", .flag e.dryRun)]⟩]
  | .error _ => []

end Visit

namespace Pass

def records (e : Editor) (rule : Rule) (p : Pass) : List Record :=
  match p.files with
  | .ok files =>
    ⟨.debug, .editing, s!"Applying {rule.display} across {e.root.display}",
      [("files", .ofNat files.length), ("parallel", .flag e.parallel)]⟩ ::
      p.visits.flatMap (Visit.records e)
  | .error _ => []

end Pass

namespace Turn

def records (e : Editor) (t : Turn) : List Record :=
  let place := [("index", Data.ofNat t.index), ("find", .text t.rule.pattern)]
  ⟨.info, .run, "Applying rule", place ++ [("replace", .text t.rule.replacement)]⟩ ::
    (t.pass.records e t.rule ++
      match t.pass.outcome with
      | .ok tally => if tally.isUnmatched then [⟨.warn, .run, "Rule matched nothing", place⟩] else []
      | .error fault =>
        [⟨.error, .run, "Rule failed, stopping", place ++ [("error", .text fault.message)]⟩])

end Turn

namespace Run

def records (r : Run) : List Record :=
  let summary := (r.report "").summary
  ⟨.info, .run, "Starting run", [("root", .text r.editor.root.display),
    ("rules", .ofNat r.total), ("dry_run", .flag r.editor.dryRun)]⟩ ::
    (r.turns.flatMap (Turn.records r.editor) ++
      [⟨.info, .run, "Run finished", [("passed", .flag summary.passed),
        ("applied", .ofNat summary.applied), ("replacements", .ofNat summary.replacements)]⟩])

end Run

end Codemod
