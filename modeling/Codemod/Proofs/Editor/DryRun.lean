import Codemod.Run.Basic

/-! A dry run leaves the disk as it is, whatever the disk, the rules and the order of the files. It
only makes drafts, so each step on the way to a whole run keeps the disk. -/
namespace Codemod.Editor

variable {e : Editor}

theorem store_disk_of_dry (dry : e.dryRun = true) {path : Path} {text : String}
    {w after : Workspace} (stored : e.store path text w = .ok after) : after.disk = w.disk := by
  rw [store, if_pos dry] at stored
  cases stored
  rfl

theorem visit_disk_of_dry (dry : e.dryRun = true) (rule : Rule) (path : Path) (w : Workspace) :
    (e.visit rule path w).2.disk = w.disk := by
  rw [visit]
  split
  · rfl
  · split
    · rfl
    · split
      · rename_i after stored
        exact store_disk_of_dry dry stored
      · rfl

theorem visitAll_disk_of_dry (dry : e.dryRun = true) (rule : Rule) (files : List Path)
    (w : Workspace) : (e.visitAll rule files w).2.disk = w.disk := by
  induction files generalizing w with
  | nil => rfl
  | cons path rest ih => exact (ih _).trans (visit_disk_of_dry dry rule path w)

theorem visitUntilFailure_disk_of_dry (dry : e.dryRun = true) (rule : Rule) (files : List Path)
    (w : Workspace) : (e.visitUntilFailure rule files w).2.disk = w.disk := by
  induction files generalizing w with
  | nil => rfl
  | cons path rest ih =>
    have here := visit_disk_of_dry dry rule path w
    rw [visitUntilFailure]
    rcases (e.visit rule path w).1 with fault | count
    · exact here
    · exact (ih _).trans here

theorem pass_disk_of_dry (dry : e.dryRun = true) (order : List Path → List Path) (rule : Rule)
    (extensions : List String) (w : Workspace) :
    (e.pass order rule extensions w).2.disk = w.disk := by
  rw [pass]
  rcases Scan.collect w.disk (e.search extensions) with fault | files
  · rfl
  · cases parallel : e.parallel with
    | true => exact visitAll_disk_of_dry dry rule (order files) w
    | false => exact visitUntilFailure_disk_of_dry dry rule files w

theorem takeTurns_disk_of_dry (dry : e.dryRun = true) (schedule : Schedule)
    (extensions : List String) (index : Nat) (rules : List Rule) (w : Workspace) :
    (e.takeTurns schedule extensions index rules w).2.disk = w.disk := by
  induction rules generalizing index w with
  | nil => rfl
  | cons rule rules ih =>
    have here := pass_disk_of_dry dry (schedule index) rule extensions w
    rw [takeTurns]
    rcases (e.pass (schedule index) rule extensions w).1.outcome with fault | tally
    · exact here
    · exact (ih _ _).trans here

theorem run_disk_of_dry (dry : e.dryRun = true) (schedule : Schedule) (book : Rulebook)
    (w : Workspace) : (e.run schedule book w).2.disk = w.disk := by
  rw [run]
  rcases Scan.ensureRoot w.disk e.root with fault | _
  · rfl
  · exact takeTurns_disk_of_dry dry schedule book.extensions 0 book.rules w.discard

end Codemod.Editor
