import Codemod.Log.Directive

/-! Filters of log records: directives, of which the one that is closest to a record decides. -/
namespace Codemod.Log

abbrev Filter := List Directive

namespace Filter

def ofText (text : String) : Except Text.Misreading Filter :=
  ((splitOn ',' text.toList).filter (· ≠ [])).mapM Directive.ofText

/-- Of the directives that select a record the closest one decides, of two equally close ones the
later. -/
def closest (filter : Filter) (r : Record) : Option Directive :=
  filter.foldl (fun best d =>
    if d.selects r then
      match best with
      | some b => if b.yieldsTo d then some d else best
      | none => some d
    else best) none

def admits (filter : Filter) (r : Record) : Bool :=
  match filter.closest r with
  | some d => d.threshold.admits r.level
  | none => false

/-- The filter of the environment if it is well formed, else the configured level. There is no
filter if a directive of the environment is torn. -/
def choose? (configured : Level) (environment : Option String) : Option Filter :=
  match environment.map ofText with
  | some (.ok filter) => some filter
  | some (.error .torn) => none
  | some (.error .malformed) | none => some [.atLeast configured]

end Filter

end Codemod.Log
