import Codemod.Path
import Codemod.Progress
import Codemod.Rule.Basic
import Codemod.Tally

/-! The report of a run: every rule that was attempted, how the run ended, and a summary. -/
namespace Codemod

inductive Outcome where
  | applied (tally : Tally)
  | failed (reason : String) (path : Option Path)
deriving DecidableEq, Repr

namespace Outcome

def isApplied : Outcome → Bool
  | .applied _ => true
  | .failed .. => false

def tally? : Outcome → Option Tally
  | .applied tally => some tally
  | .failed .. => none

end Outcome

structure Attempt where
  index : Nat
  rule : Rule
  outcome : Outcome
deriving DecidableEq, Repr

structure Summary where
  total : Nat
  applied : Nat
  skipped : Nat
  changed : Nat
  replacements : Nat
  passed : Bool
deriving DecidableEq, Repr

inductive ExitCode where
  | success
  | ruleFailed
  | misconfigured
  /-- The program stopped short without a report. -/
  | aborted
deriving DecidableEq, Repr

def ExitCode.toNat : ExitCode → Nat
  | .success => 0
  | .ruleFailed => 1
  | .misconfigured => 2
  | .aborted => 101

structure Report where
  timestamp : String
  root : Path
  dryRun : Bool
  attempts : List Attempt
  progress : Progress
  summary : Summary
deriving DecidableEq, Repr

namespace Report

/-- Only the tallies of applied rules count. -/
def summarize (total : Nat) (attempts : List Attempt) (progress : Progress) : Summary :=
  let tallies := attempts.filterMap (·.outcome.tally?)
  let sum := tallies.foldl Tally.add Tally.zero
  { total := total
    applied := tallies.length
    skipped := total - attempts.length
    changed := sum.changed
    replacements := sum.replacements
    passed := progress = .done }

def assemble (timestamp : String) (root : Path) (dryRun : Bool) (total : Nat)
    (attempts : List Attempt) (progress : Progress) : Report :=
  ⟨timestamp, root, dryRun, attempts, progress, summarize total attempts progress⟩

def passed (r : Report) : Bool := r.summary.passed

def failure? (r : Report) : Option Attempt := r.attempts.find? (!·.outcome.isApplied)

def exitCode (r : Report) : ExitCode := if r.passed then .success else .ruleFailed

end Report

end Codemod
