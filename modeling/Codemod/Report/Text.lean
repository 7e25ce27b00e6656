import Codemod.Report.Basic

/-! The report as text for people. -/
namespace Codemod

namespace Attempt

/-- The result column is seven wide, so that the rules stand below each other. -/
def line (a : Attempt) : String :=
  let number := String.ofList ((toString (a.index + 1)).toList.leftpad 2 ' ')
  match a.outcome with
  | .applied t =>
    s!"  [{number}] OK     {a.rule.display}  ({t.replacements} replacements in {t.changed} of " ++
      s!"{t.scanned} files)\n"
  | .failed reason _ => s!"  [{number}] FAILED {a.rule.display}  ({reason})\n"

end Attempt

namespace Report

def heading (r : Report) : String :=
  "=== Migration Report ===\n\n" ++
  s!"Timestamp: {r.timestamp}\n" ++
  s!"Root:      {r.root.display}\n" ++
  (if r.dryRun then "Mode:      dry run (no files written)\n" else "") ++ "\n"

/-- Every run that did not fail counts as passed here, a finished one or not. -/
def verdict : Progress → String
  | .failed index _ => s!"\nResult: FAILED at rule {index + 1}\n"
  | _ => "\nResult: PASSED\n"

def footing (s : Summary) : String :=
  "--- Summary ---\n" ++
  s!"Rules:        {s.applied} applied, {s.skipped} skipped, {s.total} total\n" ++
  s!"Files changed: {s.changed}\n" ++
  s!"Replacements:  {s.replacements}\n"

def text (r : Report) : String :=
  r.heading ++ "--- Rules ---\n" ++ String.join (r.attempts.map Attempt.line) ++ "\n" ++
    footing r.summary ++ verdict r.progress

end Report

end Codemod
