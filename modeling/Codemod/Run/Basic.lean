import Codemod.Editor.Basic
import Codemod.Report.Basic
import Codemod.Rulebook.Basic

/-! Running a rulebook. Each rule has its turn after the one before it has gone through the whole
tree; the first rule that fails ends the run, and nothing is undone. Progress, attempts, report and
notices are views of the turns that took place. -/
namespace Codemod

structure Turn where
  index : Nat
  rule : Rule
  pass : Pass

structure Run where
  editor : Editor
  rulebook : Rulebook
  turns : List Turn

inductive Notice where
  | started (index : Nat) (rule : Rule)
  /-- The rule matched nowhere; its completion follows. -/
  | unmatched (index : Nat) (rule : Rule)
  | completed (index : Nat) (rule : Rule) (tally : Tally)
  | failed (index : Nat) (rule : Rule) (fault : Fault)
  | finished (report : Report)
deriving DecidableEq, Repr

namespace Editor

/-- The files that a run is about; there are none if the walk fails. -/
def candidates (e : Editor) (book : Rulebook) (d : Disk) : List Path :=
  (Scan.collect d (e.search book.extensions)).toOption.getD []

def takeTurns (e : Editor) (schedule : Schedule) (extensions : List String) :
    Nat → List Rule → Workspace → List Turn × Workspace
  | _, [], w => ([], w)
  | index, rule :: rules, w =>
    let passed := e.pass (schedule index) rule extensions w
    match passed.1.outcome with
    | .error _ => ([⟨index, rule, passed.1⟩], passed.2)
    | .ok _ =>
      let others := e.takeTurns schedule extensions (index + 1) rules passed.2
      (⟨index, rule, passed.1⟩ :: others.1, others.2)

/-- Runs a rulebook. Without a root nothing happens; otherwise older drafts are discarded first. -/
def run (e : Editor) (schedule : Schedule) (book : Rulebook) (w : Workspace) :
    Except Fault Run × Workspace :=
  match Scan.ensureRoot w.disk e.root with
  | .error fault => (.error fault, w)
  | .ok () =>
    let taken := e.takeTurns schedule book.extensions 0 book.rules w.discard
    (.ok ⟨e, book, taken.1⟩, taken.2)

end Editor

namespace Turn

def outcome (t : Turn) : Outcome :=
  match t.pass.outcome with
  | .ok tally => .applied tally
  | .error fault => .failed fault.message fault.path?

def attempt (t : Turn) : Attempt := ⟨t.index, t.rule, t.outcome⟩

def step (total : Nat) (t : Turn) : Progress.Step :=
  match t.pass.outcome with
  | .ok _ => .advance total
  | .error fault => .fail fault.message

def notices (t : Turn) : List Notice :=
  .started t.index t.rule ::
    match t.pass.outcome with
    | .ok tally =>
      (if tally.isUnmatched then [.unmatched t.index t.rule] else []) ++
        [.completed t.index t.rule tally]
    | .error fault => [.failed t.index t.rule fault]

end Turn

namespace Run

def total (r : Run) : Nat := r.rulebook.rules.length

def progress (r : Run) : Progress :=
  r.turns.foldl (fun state turn => state.after (turn.step r.total))
    (Progress.idle.start r.total)

def report (r : Run) (timestamp : String) : Report :=
  Report.assemble timestamp r.editor.root r.editor.dryRun r.total (r.turns.map Turn.attempt)
    r.progress

def notices (r : Run) (timestamp : String) : List Notice :=
  r.turns.flatMap Turn.notices ++ [.finished (r.report timestamp)]

end Run

end Codemod
