import Codemod.Proofs.Editor.Pass
import Codemod.Run.Basic

/-! A run in closed form. Whether it fails is settled by the disk it begins with: by the walk, and
by the files that cannot be read. If nothing is wrong with them then every rule goes over every
file; else the run ends with its first rule. Report, notices and workspace are views of that. -/
namespace Codemod

/-- What a turn came to, without the order of its visits. -/
structure Verdict where
  index : Nat
  rule : Rule
  outcome : Except Fault Tally

def Turn.verdict (t : Turn) : Verdict := ⟨t.index, t.rule, t.pass.outcome⟩

namespace Verdict

def attempt (v : Verdict) : Attempt :=
  ⟨v.index, v.rule, match v.outcome with
    | .ok tally => .applied tally
    | .error fault => .failed fault.message fault.path?⟩

def step (total : Nat) (v : Verdict) : Progress.Step :=
  match v.outcome with
  | .ok _ => .advance total
  | .error fault => .fail fault.message

def notices (v : Verdict) : List Notice :=
  .started v.index v.rule ::
    match v.outcome with
    | .ok tally =>
      (if tally.isUnmatched then [.unmatched v.index v.rule] else []) ++
        [.completed v.index v.rule tally]
    | .error fault => [.failed v.index v.rule fault]

def progress (total : Nat) (verdicts : List Verdict) : Progress :=
  verdicts.foldl (fun state v => state.after (v.step total)) (Progress.idle.start total)

def report (e : Editor) (total : Nat) (verdicts : List Verdict) (timestamp : String) : Report :=
  Report.assemble timestamp e.root e.dryRun total (verdicts.map attempt) (progress total verdicts)

end Verdict

theorem Run.progress_eq (r : Run) :
    r.progress = Verdict.progress r.total (r.turns.map Turn.verdict) := by
  rw [Run.progress, Verdict.progress, List.foldl_map]
  rfl

theorem Run.report_eq (r : Run) (timestamp : String) :
    r.report timestamp =
      Verdict.report r.editor r.total (r.turns.map Turn.verdict) timestamp := by
  rw [Run.report, Verdict.report, Run.progress_eq, List.map_map]
  rfl

theorem Run.notices_eq (r : Run) (timestamp : String) :
    r.notices timestamp = (r.turns.map Turn.verdict).flatMap Verdict.notices ++
      [.finished (r.report timestamp)] := by
  rw [Run.notices, List.flatMap_map]
  rfl

/-- What the caller and the observer of a run are given. -/
def Run.observed (timestamp : String) (r : Run) : Report × List Notice :=
  (r.report timestamp, r.notices timestamp)

def Verdict.observed (e : Editor) (total : Nat) (verdicts : List Verdict) (timestamp : String) :
    Report × List Notice :=
  (report e total verdicts timestamp,
    verdicts.flatMap notices ++ [.finished (report e total verdicts timestamp)])

theorem Run.observed_eq (r : Run) (timestamp : String) :
    r.observed timestamp =
      Verdict.observed r.editor r.total (r.turns.map Turn.verdict) timestamp := by
  rw [Run.observed, Run.notices_eq, Run.report_eq]
  rfl

namespace Editor

/-- Why a first rule fails on a disk: the walk fails, or else some file cannot be read. -/
def fault? (e : Editor) (book : Rulebook) (d : Disk) : Option Fault :=
  match Scan.collect d (e.search book.extensions) with
  | .error fault => some fault
  | .ok files => files.findSome? d.fault?

/-- The tally of a rule over files that some rules have gone over before. -/
def tally (files : List Path) (d : Disk) (before : List Rule) (rule : Rule) : Tally :=
  Tally.ofCounts (files.map fun p => rule.count (Rule.replaceAll before (d.textAt p)))

def ledger (e : Editor) (book : Rulebook) (d : Disk) : List Verdict :=
  match e.fault? book d with
  | some fault => (book.rules.take 1).map fun rule => ⟨0, rule, .error fault⟩
  | none => book.rules.zipIdx.map fun (rule, k) =>
      ⟨k, rule, .ok (tally (e.candidates book d) d (book.rules.take k) rule)⟩

/-- The rules that a run applies to each file. -/
def history (e : Editor) (book : Rulebook) (d : Disk) : History :=
  match e.fault? book d with
  | some _ => .only (e.goesOver d (e.candidates book d)) (book.rules.take 1)
  | none => fun _ => book.rules

theorem candidates_of_collect {e : Editor} {book : Rulebook} {d : Disk} {files : List Path}
    (collected : Scan.collect d (e.search book.extensions) = .ok files) :
    e.candidates book d = files := by
  simp [candidates, collected, Except.toOption]

theorem candidates_of_walk {e : Editor} {book : Rulebook} {d : Disk} {fault : Fault}
    (walked : Scan.collect d (e.search book.extensions) = .error fault) :
    e.candidates book d = [] := by
  simp [candidates, walked, Except.toOption]

section

open Scan

variable {e : Editor} {schedule : Schedule} {book : Rulebook} {start : Disk} {files : List Path}
  {place : Path → Location} {w : Workspace}

theorem isReadable_of_findSome? (clear : files.findSome? start.fault? = none) :
    ∀ p ∈ files, start.isReadable p := fun p member =>
  Disk.fault?_eq_none_iff.mp (List.findSome?_eq_none_iff.mp clear p member)

/-- The turns from some rule on, when all files can be read. -/
theorem Follows.takeTurns (done rules : List Rule)
    (follows : e.Follows start files (fun _ => done) w) (sound : start.root.WellFormed)
    (charted : Charts start files place) (orders : schedule.Permutes)
    {extensions : List String} (collected : Scan.collect start (e.search extensions) = .ok files)
    (clear : files.findSome? start.fault? = none) :
    (e.takeTurns schedule extensions done.length rules w).1.map Turn.verdict =
        (rules.zipIdx done.length).map (fun (rule, k) =>
          (⟨k, rule, .ok (tally files start ((done ++ rules).take k) rule)⟩ : Verdict)) ∧
      e.Follows start files (fun _ => done ++ rules)
        (e.takeTurns schedule extensions done.length rules w).2 := by
  -- The rules in `done` have gone over all files; the next one finds the same files again.
  induction rules generalizing done w with
  | nil => simpa [Editor.takeTurns] using follows
  | cons rule rules ih =>
    obtain ⟨outcome, after⟩ := follows.pass sound charted collected
      (orders done.length files) rule
    rw [goesOver_of_readable (isReadable_of_findSome? clear)] at after
    have after : e.Follows start files (fun _ => done ++ [rule]) _ :=
      after.history_congr fun p member => by rw [History.add_of_mem member]
    simp only [Disk.passOutcome, clear] at outcome
    obtain ⟨verdicts, final⟩ := ih (done ++ [rule]) after
    rw [List.length_append, List.length_singleton] at verdicts final
    simp only [Editor.takeTurns, outcome]
    refine ⟨?_, by simpa using final⟩
    simp [verdicts, Turn.verdict, outcome, tally]

/-- A walk that fails ends the run with its first rule, before any file is visited. -/
theorem takeTurns_of_walk (schedule : Schedule) {fault : Fault} {extensions : List String}
    (walked : Scan.collect w.disk (e.search extensions) = .error fault) (rules : List Rule) :
    (e.takeTurns schedule extensions 0 rules w).1.map Turn.verdict =
        (rules.take 1).map (fun rule => ⟨0, rule, .error fault⟩) ∧
      (e.takeTurns schedule extensions 0 rules w).2 = w := by
  cases rules with
  | nil => exact ⟨rfl, rfl⟩
  | cons rule rest =>
    have stopped : e.pass (schedule 0) rule extensions w = (⟨.error fault, []⟩, w) := by
      simp only [Editor.pass, walked]
    simp [Editor.takeTurns, stopped, Pass.outcome, Turn.verdict]

/-- A file that cannot be read ends the run with its first rule. -/
theorem Follows.takeTurns_of_fault {fault : Fault} {extensions : List String}
    (follows : e.Follows start files (fun _ => []) w) (sound : start.root.WellFormed)
    (charted : Charts start files place) (orders : schedule.Permutes)
    (collected : Scan.collect start (e.search extensions) = .ok files)
    (faulty : files.findSome? start.fault? = some fault) (rules : List Rule) :
    (e.takeTurns schedule extensions 0 rules w).1.map Turn.verdict =
        (rules.take 1).map (fun rule => ⟨0, rule, .error fault⟩) ∧
      e.Follows start files (.only (e.goesOver start files) (rules.take 1))
        (e.takeTurns schedule extensions 0 rules w).2 := by
  cases rules with
  | nil => exact ⟨rfl, follows.history_congr (by simp [History.only])⟩
  | cons rule rest =>
    obtain ⟨outcome, after⟩ := follows.pass sound charted collected (orders 0 files) rule
    simp only [Disk.passOutcome, faulty] at outcome
    simp only [Editor.takeTurns, outcome]
    refine ⟨by simp [Turn.verdict, outcome], after.history_congr fun p _ => ?_⟩
    simp [History.add, History.only]

theorem run_of_no_root (schedule : Schedule) (book : Rulebook)
    (rootless : w.disk.isFolder e.root = false) :
    e.run schedule book w = (.error (.rootMissing e.root), w) := by
  simp [Editor.run, ensureRoot, rootless]

/-- A run on a root has the verdicts of the ledger, and leaves what its history says. -/
theorem run_of_root (sound : w.disk.root.WellFormed) (orders : schedule.Permutes)
    (book : Rulebook) (rooted : w.disk.isFolder e.root) :
    ∃ turns final, e.run schedule book w = (.ok ⟨e, book, turns⟩, final) ∧
      turns.map Turn.verdict = e.ledger book w.disk ∧
      e.Follows w.disk (e.candidates book w.disk) (e.history book w.disk) final := by
  have begun : e.run schedule book w =
      (.ok ⟨e, book, (e.takeTurns schedule book.extensions 0 book.rules w.discard).1⟩,
        (e.takeTurns schedule book.extensions 0 book.rules w.discard).2) := by
    simp [Editor.run, ensureRoot, rooted]
  refine ⟨_, _, begun, ?_⟩
  have discarded := follows_discard e w (e.candidates book w.disk)
  cases collected : Scan.collect w.disk (e.search book.extensions) with
  | error fault =>
    have walked : Scan.collect w.discard.disk (e.search book.extensions) = .error fault := collected
    obtain ⟨verdicts, unchanged⟩ := takeTurns_of_walk schedule walked book.rules
    rw [verdicts, unchanged]
    refine ⟨by simp [ledger, fault?, collected], ?_⟩
    rw [candidates_of_walk collected] at discarded ⊢
    exact discarded.history_congr (by simp)
  | ok files =>
    obtain ⟨place, charted⟩ := exists_charts sound collected
    have found := candidates_of_collect collected
    rw [found] at discarded ⊢
    cases read : files.findSome? w.disk.fault? with
    | none =>
      obtain ⟨verdicts, after⟩ := discarded.takeTurns [] book.rules sound charted orders collected
        read
      have passes : e.fault? book w.disk = none := by simp [fault?, collected, read]
      refine ⟨by rw [ledger, passes, found]; exact verdicts, after.history_congr fun p _ => ?_⟩
      simp [history, passes]
    | some fault =>
      obtain ⟨verdicts, after⟩ := discarded.takeTurns_of_fault sound charted orders collected read
        book.rules
      have fails : e.fault? book w.disk = some fault := by simp [fault?, collected, read]
      refine ⟨by rw [ledger, fails]; exact verdicts, after.history_congr fun p _ => ?_⟩
      simp [history, fails, found]

/-- What is seen of a run depends neither on the mode nor on the order of the visits. -/
theorem run_observed (sound : w.disk.root.WellFormed) (orders : schedule.Permutes)
    (book : Rulebook) (timestamp : String) :
    (e.run schedule book w).1.map (Run.observed timestamp) =
      if w.disk.isFolder e.root then
        .ok (Verdict.observed e book.rules.length (e.ledger book w.disk) timestamp)
      else .error (.rootMissing e.root) := by
  by_cases rooted : w.disk.isFolder e.root
  · obtain ⟨turns, final, taken, verdicts, _⟩ := run_of_root sound orders book rooted
    rw [taken, if_pos rooted, Except.map, Run.observed_eq, verdicts]
    rfl
  · rw [run_of_no_root schedule book (by simpa using rooted), if_neg rooted]
    rfl

end

end Editor

end Codemod
