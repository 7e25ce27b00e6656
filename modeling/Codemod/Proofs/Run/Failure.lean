import Codemod.Proofs.Editor.Effect
import Codemod.Proofs.Run.Outcome

/-! When a run fails, and what it leaves behind then. -/
namespace Codemod.Editor

variable {e : Editor} {schedule : Schedule} {book : Rulebook} {d : Disk} {w : Workspace}
  {rule : Rule} {rest : List Rule} {files : List Path} {p : Path} {fault : Fault} {cause : Refusal}

theorem exists_fault_iff : (∃ fault, e.fault? book d = some fault) ↔
    (∃ fault, Scan.collect d (e.search book.extensions) = .error fault) ∨
      ∃ p ∈ e.candidates book d, ∃ cause, d.readText p = .error cause := by
  rw [← Option.isSome_iff_exists, ← Option.ne_none_iff_isSome, ne_eq, fault?_eq_none_iff]
  cases collected : Scan.collect d (e.search book.extensions) with
  | error fault => simp
  | ok files => simp [candidates_of_collect collected, Disk.not_isReadable_iff]

/-- A run with a fault leaves nothing behind if the walk fails. -/
theorem Follows.untouched_of_walk {final : Workspace}
    (walked : Scan.collect d (e.search book.extensions) = .error fault)
    (follows : e.Follows d (e.candidates book d) (e.history book d) final) :
    final.disk = d ∧ ∀ p, final.drafts.get? p = none := by
  rw [candidates_of_walk walked] at follows
  exact (follows.history_congr fun p member => absurd member (List.not_mem_nil)).untouched

theorem Follows.leaves_of_unreadable {final : Workspace} (sound : d.root.WellFormed)
    (begun : book.rules = rule :: rest)
    (collected : Scan.collect d (e.search book.extensions) = .ok files)
    (faulty : e.fault? book d = some fault) (member : p ∈ files)
    (lost : d.readText p = .error cause) (first : ∀ q ∈ files, q.Precedes p → d.isReadable q)
    (follows : e.Follows d (e.candidates book d) (e.history book d) final) :
    e.Leaves [rule] (fun q => q ∈ files ∧ d.isReadable q ∧ (e.parallel ∨ q.Precedes p)) d
      final := by
  obtain ⟨place, charted⟩ := Scan.exists_charts sound collected
  rw [candidates_of_collect collected] at follows
  have taken (q : Path) : e.history book d q =
      if q ∈ e.goesOver d files then [rule] else [] := by
    rw [history_of_fault faulty begun, candidates_of_collect collected]
  refine follows.leaves charted (fun q used => used.1) (fun q used => ?_) fun q _ unused => ?_
  · rw [taken, if_pos ((mem_goesOver_iff charted.ordered member lost first).mpr used)]
  · rw [taken, if_neg fun used =>
      unused ((mem_goesOver_iff charted.ordered member lost first).mp used)]

/-- A run on a root fails if the walk fails or some file cannot be read, and then with its first
rule. This rule has gone over all files that can be read in parallel mode, and in sequential mode
over those in front of the first that cannot. -/
theorem run_failure (sound : w.disk.root.WellFormed) (orders : schedule.Permutes)
    (rooted : w.disk.isFolder e.root) (begun : book.rules = rule :: rest) :
    ∃ r final, e.run schedule book w = (.ok r, final) ∧
      ((∃ k reason, r.progress = .failed k reason) ↔
        (∃ fault, Scan.collect w.disk (e.search book.extensions) = .error fault) ∨
          ∃ p ∈ e.candidates book w.disk, ∃ cause, w.disk.readText p = .error cause) ∧
      (∀ fault, Scan.collect w.disk (e.search book.extensions) = .error fault →
        r.FailedFirst rule fault ∧ (∃ q, fault.path? = some q) ∧ final.disk = w.disk ∧
          ∀ p, final.drafts.get? p = none) ∧
      ∀ files, Scan.collect w.disk (e.search book.extensions) = .ok files →
        (∃ p ∈ files, ∃ cause, w.disk.readText p = .error cause) →
        ∃ p ∈ files, ∃ cause, w.disk.readText p = .error cause ∧
          (∀ q ∈ files, q.Precedes p → w.disk.isReadable q) ∧
          r.FailedFirst rule (.access p cause) ∧
          e.Leaves [rule]
            (fun q => q ∈ files ∧ w.disk.isReadable q ∧ (e.parallel ∨ q.Precedes p)) w.disk
            final := by
  obtain ⟨turns, final, ran, verdicts, follows⟩ := run_of_root sound orders book rooted
  refine ⟨⟨e, book, turns⟩, final, ran, ?_, fun fault walked => ?_,
    fun files collected unreadable => ?_⟩
  · rw [← exists_fault_iff]
    constructor
    · rintro ⟨k, reason, failed⟩
      cases faulty : e.fault? book w.disk with
      | some fault => exact ⟨fault, rfl⟩
      | none =>
        rw [done_of_clear verdicts rfl faulty] at failed
        cases failed
    · rintro ⟨fault, faulty⟩
      exact ⟨0, fault.message, (failedFirst_of_fault verdicts rfl faulty begun).progress⟩
  · have faulty : e.fault? book w.disk = some fault := by simp [fault?, walked]
    exact ⟨failedFirst_of_fault verdicts rfl faulty begun, Scan.exists_path_of_collect walked,
      follows.untouched_of_walk walked⟩
  · have failing : ∃ p ∈ e.candidates book w.disk, ∃ cause, w.disk.readText p = .error cause := by
      rwa [candidates_of_collect collected]
    obtain ⟨fault, faulty⟩ := exists_fault_iff.mpr (Or.inr failing)
    obtain ⟨place, charted⟩ := Scan.exists_charts sound collected
    obtain ⟨p, member, cause, lost, rfl, first⟩ :=
      exists_first_unreadable charted.ordered collected faulty
    exact ⟨p, member, cause, lost, first, failedFirst_of_fault verdicts rfl faulty begun,
      follows.leaves_of_unreadable sound begun collected faulty member lost first⟩

theorem run_failure_chained :
    ∃ r final cause, Editor.run ⟨[Path.slash], [], false, false⟩ Schedule.inOrder chainedRules
        ⟨chainedDisk [255], []⟩ = (.ok r, final) ∧
      r.FailedFirst ⟨"a", "b"⟩ (.access (Path.ofText "/y.md") cause) ∧
      final.disk.readText (Path.ofText "/x.md") = .ok "bb" := by
  obtain ⟨r, final, ran, _, _, unreadable⟩ := run_failure
    (e := ⟨[Path.slash], [], false, false⟩) (w := ⟨chainedDisk [255], []⟩)
    (chainedDisk_wellFormed [255]) (fun _ files => .refl files : Schedule.inOrder.Permutes)
    (by decide +kernel) (rfl : chainedRules.rules = _)
  have only : ∀ p ∈ ["/x.md", "/y.md", "/z.md"].map Path.ofText,
      (chainedDisk [255]).isReadable p = false → p = Path.ofText "/y.md" := by decide +kernel
  obtain ⟨p, member, cause, lost, _, first, leaves⟩ := unreadable
    (["/x.md", "/y.md", "/z.md"].map Path.ofText) (by decide +kernel)
    ⟨Path.ofText "/y.md", by decide +kernel, .notText, by decide +kernel⟩
  obtain rfl := only p member (Disk.not_isReadable_iff.mpr ⟨cause, lost⟩)
  exact ⟨r, final, cause, ran, first, (leaves.real rfl).1.composed (Path.ofText "/x.md") "ab"
    (by decide +kernel) (by decide +kernel)⟩

end Codemod.Editor
