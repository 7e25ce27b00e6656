import Codemod.Editor.Workspace
import Codemod.Rule.Basic
import Codemod.Scan.Collect
import Codemod.Tally

/-! Applying one rule to every wanted file. Each file is visited once: its text is read, and if the
rule matches, the new text is written or, in a dry run, kept as a draft. A parallel editor visits
all files in an order it is given; a sequential one goes by path and stops at the first failure.
Both report the first failure by path. -/
namespace Codemod

structure Editor where
  root : Path
  exclude : List String
  dryRun : Bool
  parallel : Bool
deriving DecidableEq, Repr

/-- An order in which the files of a rule may be visited in parallel mode, for each rule by its
position. -/
abbrev Schedule := Nat → List Path → List Path

def Schedule.inOrder : Schedule := fun _ files => files

structure Visit where
  path : Path
  result : Except Fault Nat

namespace Editor

def ofRoot (root : Path) : Editor := ⟨root, Scan.defaultExclude, false, true⟩

def store (e : Editor) (path : Path) (text : String) (w : Workspace) :
    Except Refusal Workspace :=
  if e.dryRun then .ok { w with drafts := w.drafts.put path text }
  else (w.disk.write path (Utf8.encode text)).map fun disk => { w with disk }

/-- Applies a rule to one file. A file in which the rule does not match is not written. -/
def visit (e : Editor) (rule : Rule) (path : Path) (w : Workspace) :
    Except Fault Nat × Workspace :=
  match w.text path with
  | .error cause => (.error (.access path cause), w)
  | .ok text =>
    match rule.replaceIn? text with
    | none => (.ok 0, w)
    | some (updated, count) =>
      match e.store path updated w with
      | .ok w => (.ok count, w)
      | .error cause => (.error (.access path cause), w)

def visitAll (e : Editor) (rule : Rule) : List Path → Workspace → List Visit × Workspace
  | [], w => ([], w)
  | path :: rest, w =>
    let here := e.visit rule path w
    let others := e.visitAll rule rest here.2
    (⟨path, here.1⟩ :: others.1, others.2)

def visitUntilFailure (e : Editor) (rule : Rule) : List Path → Workspace → List Visit × Workspace
  | [], w => ([], w)
  | path :: rest, w =>
    let here := e.visit rule path w
    match here.1 with
    | .error fault => ([⟨path, .error fault⟩], here.2)
    | .ok count =>
      let others := e.visitUntilFailure rule rest here.2
      (⟨path, .ok count⟩ :: others.1, others.2)

def search (e : Editor) (extensions : List String) : Scan.Search := ⟨e.root, extensions, e.exclude⟩

end Editor

/-- One rule's way through the tree: the files it is about, and the visits in the order in which
they took place. -/
structure Pass where
  files : Except Fault (List Path)
  visits : List Visit

namespace Pass

def results (p : Pass) (files : List Path) : List (Except Fault Nat) :=
  files.filterMap fun path => (p.visits.find? (·.path = path)).map (·.result)

/-- The first failure, or else the tally of all replacements. -/
def settle : Tally → List (Except Fault Nat) → Except Fault Tally
  | tally, [] => .ok tally
  | _, .error fault :: _ => .error fault
  | tally, .ok count :: rest => settle (tally.record count) rest

def outcome (p : Pass) : Except Fault Tally :=
  match p.files with
  | .error fault => .error fault
  | .ok files => settle .zero (p.results files)

end Pass

namespace Editor

/-- Applies a rule to every wanted file. The files are collected before the first is visited. -/
def pass (e : Editor) (order : List Path → List Path) (rule : Rule) (extensions : List String)
    (w : Workspace) : Pass × Workspace :=
  match Scan.collect w.disk (e.search extensions) with
  | .error fault => (⟨.error fault, []⟩, w)
  | .ok files =>
    let visited := if e.parallel then e.visitAll rule (order files) w
      else e.visitUntilFailure rule files w
    (⟨.ok files, visited.1⟩, visited.2)

def apply (e : Editor) (order : List Path → List Path) (rule : Rule) (extensions : List String)
    (w : Workspace) : Except Fault Tally × Workspace :=
  let passed := e.pass order rule extensions w
  (passed.1.outcome, passed.2)

end Editor

end Codemod
