/-! How far a run has come. A run goes through its rules one by one and ends when all of them are
applied or one fails; the two final states are never left. -/
namespace Codemod

inductive Progress where
  | idle
  | running (index : Nat)
  | done
  | failed (index : Nat) (reason : String)
deriving DecidableEq, Repr

namespace Progress

def start (total : Nat) : Progress → Progress
  | .idle => if total = 0 then .done else .running 0
  | state => state

def advance (total : Nat) : Progress → Progress
  | .running index => if total ≤ index + 1 then .done else .running (index + 1)
  | state => state

def fail (reason : String) : Progress → Progress
  | .running index => .failed index reason
  | state => state

def runningIndex? : Progress → Option Nat
  | .running index => some index
  | _ => none

def isTerminal : Progress → Bool
  | .done | .failed .. => true
  | .idle | .running _ => false

inductive Step where
  | start (total : Nat)
  | advance (total : Nat)
  | fail (reason : String)
deriving DecidableEq, Repr

def after (state : Progress) : Step → Progress
  | .start total => state.start total
  | .advance total => state.advance total
  | .fail reason => state.fail reason

theorem after_of_isTerminal {state : Progress} (final : state.isTerminal) (s : Step) :
    state.after s = state := by
  cases state <;> cases s <;> simp_all [isTerminal, after, start, advance, fail]

end Progress

end Codemod
