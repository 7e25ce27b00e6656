import Codemod.Report.Basic
import Codemod.Rule.Data

/-! Reports as structured data, written and read back. -/
namespace Codemod

namespace Tally

def toData (t : Tally) : Data :=
  .table [("files_scanned", .ofNat t.scanned), ("files_changed", .ofNat t.changed),
    ("replacements", .ofNat t.replacements)]

def ofData? (d : Data) : Option Tally := do
  match ← d.slots .exact ["files_scanned", "files_changed", "replacements"] with
  | [scanned, changed, replacements] =>
    return ⟨← scanned.required Data.count?, ← changed.required Data.count?,
      ← replacements.required Data.count?⟩
  | _ => none

end Tally

namespace Progress

def toData : Progress → Data
  | .idle => .table [("state", .text "idle")]
  | .running index => .table [("state", .text "running"), ("index", .ofNat index)]
  | .done => .table [("state", .text "done")]
  | .failed index reason =>
    .table [("state", .text "failed"), ("index", .ofNat index), ("reason", .text reason)]

def ofData? (d : Data) : Option Progress := do
  let (state, fields) ← d.tagged "state"
  match state with
  | "idle" =>
    let _ ← fields.slots .exact []
    return .idle
  | "running" =>
    match ← fields.slots .exact ["index"] with
    | [index] => return .running (← index.required Data.count?)
    | _ => none
  | "done" =>
    let _ ← fields.slots .exact []
    return .done
  | "failed" =>
    match ← fields.slots .exact ["index", "reason"] with
    | [index, reason] =>
      return .failed (← index.required Data.count?) (← reason.required Data.text?)
    | _ => none
  | _ => none

end Progress

namespace Path

/-- A path is written as text, which a path that is not UTF-8 has none of. -/
def toData? (p : Path) : Option Data := (Utf8.decode? p).map .text

def ofData? (d : Data) : Option Path := d.text?.map ofText

end Path

namespace Outcome

def toData? : Outcome → Option Data
  | .applied tally => some (.table [("status", .text "applied"), ("stats", tally.toData)])
  | .failed reason path => do
    let path ← match path with
      | none => some .null
      | some p => p.toData?
    return .table [("status", .text "failed"), ("reason", .text reason), ("path", path)]

def ofData? (d : Data) : Option Outcome := do
  let (status, fields) ← d.tagged "status"
  match status with
  | "applied" =>
    match ← fields.slots .exact ["stats"] with
    | [tally] => return .applied (← tally.required Tally.ofData?)
    | _ => none
  | "failed" =>
    match ← fields.slots .exact ["reason", "path"] with
    | [reason, path] =>
      return .failed (← reason.required Data.text?) (← path.optional Path.ofData?)
    | _ => none
  | _ => none

end Outcome

namespace Attempt

def toData? (a : Attempt) : Option Data := do
  return .table [("index", .ofNat a.index), ("rule", a.rule.toData),
    ("outcome", ← a.outcome.toData?)]

def ofData? (d : Data) : Option Attempt := do
  match ← d.slots .exact ["index", "rule", "outcome"] with
  | [index, rule, outcome] =>
    return ⟨← index.required Data.count?, ← rule.required Rule.ofData?,
      ← outcome.required Outcome.ofData?⟩
  | _ => none

end Attempt

namespace Summary

def toData (s : Summary) : Data :=
  .table [("rules_total", .ofNat s.total), ("rules_applied", .ofNat s.applied),
    ("rules_skipped", .ofNat s.skipped), ("files_changed", .ofNat s.changed),
    ("replacements", .ofNat s.replacements), ("passed", .flag s.passed)]

def ofData? (d : Data) : Option Summary := do
  match ← d.slots .exact ["rules_total", "rules_applied", "rules_skipped", "files_changed",
      "replacements", "passed"] with
  | [total, applied, skipped, changed, replacements, passed] =>
    return ⟨← total.required Data.count?, ← applied.required Data.count?,
      ← skipped.required Data.count?, ← changed.required Data.count?,
      ← replacements.required Data.count?, ← passed.required Data.flag?⟩
  | _ => none

end Summary

namespace Report

/-- A report with a path that is not UTF-8 cannot be written. -/
def toData? (r : Report) : Option Data := do
  return .table [("timestamp", .text r.timestamp), ("root", ← r.root.toData?),
    ("dry_run", .flag r.dryRun), ("rules", .list (← r.attempts.mapM Attempt.toData?)),
    ("state", r.progress.toData), ("summary", r.summary.toData)]

def ofData? (d : Data) : Option Report := do
  match ← d.slots .exact ["timestamp", "root", "dry_run", "rules", "state", "summary"] with
  | [timestamp, root, dryRun, attempts, progress, summary] =>
    return ⟨← timestamp.required Data.text?, ← root.required Path.ofData?,
      ← dryRun.required Data.flag?, ← attempts.required (Data.each? Attempt.ofData?),
      ← progress.required Progress.ofData?, ← summary.required Summary.ofData?⟩
  | _ => none

end Report

end Codemod
