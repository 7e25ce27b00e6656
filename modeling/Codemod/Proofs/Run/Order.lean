import Codemod.Proofs.Run.Outcome

/-! Parallel and sequential runs. Both are seen to do the same, and in parallel mode the order of
the visits leaves no trace at all. After a failure the two modes differ only in files that do not
come before the failing one. -/
namespace Codemod

namespace Workspace

/-- The same disk, and the same draft of every path. -/
structure Alike (w w' : Workspace) : Prop where
  disk : w.disk = w'.disk
  drafts : ∀ p, w.drafts.get? p = w'.drafts.get? p

/-- The same file behind a path, and the same draft of it. -/
structure AlikeAt (w w' : Workspace) (p : Path) : Prop where
  entry : w.disk.entry p = w'.disk.entry p
  draft : w.drafts.get? p = w'.drafts.get? p

end Workspace

namespace Editor

section

open Scan

variable {e e' : Editor} {start : Disk} {files : List Path} {place : Path → Location}
  {h h' : History} {w w' : Workspace} {p : Path}

theorem Follows.alike (follows : e.Follows start files h w) (follows' : e'.Follows start files h' w')
    (mode : e.dryRun = e'.dryRun) (same : ∀ p ∈ files, h p = h' p) : w.Alike w' := by
  obtain ⟨standing, drafted⟩ := follows.history_congr same
  obtain ⟨standing', drafted'⟩ := follows'
  rw [mode] at standing
  simp only [mode] at drafted
  exact ⟨standing.trans standing'.symm, fun p => (drafted p).trans (drafted' p).symm⟩

/-- The rules that went over a file decide what becomes of it, whatever went over others. -/
theorem Follows.alikeAt (follows : e.Follows start files h w)
    (follows' : e'.Follows start files h' w') (mode : e.dryRun = e'.dryRun)
    (charted : Charts start files place) (member : p ∈ files) (same : h p = h' p) :
    w.AlikeAt w' p := by
  obtain ⟨standing, drafted⟩ := follows
  obtain ⟨standing', drafted'⟩ := follows'
  have edits : (start.edited files h).entry p = (start.edited files h').entry p := by
    rw [entry_edited charted member, entry_edited charted member, same]
  have drafts : start.draft? files h p = start.draft? files h' p := by
    rw [draft?_of_mem charted.ordered member, draft?_of_mem charted.ordered member, same]
  constructor
  · rw [standing, standing', mode]
    split
    · rfl
    · exact edits
  · rw [drafted, drafted', mode, drafts]

end

variable {e : Editor} {schedule schedule' schedule'' : Schedule} {book : Rulebook}
  {w afterFirst afterSecond afterSequential : Workspace} {first second sequential : Except Fault Run}

theorem sequential_of_failed {d : Disk} {r : Run} {after after' : Workspace}
    (sound : d.root.WellFormed) (verdicts : r.turns.map Turn.verdict = e.ledger book d)
    (rulebook : r.rulebook = book)
    (follows : { e with parallel := true }.Follows d (e.candidates book d)
      ({ e with parallel := true }.history book d) after)
    (follows' : { e with parallel := false }.Follows d (e.candidates book d)
      ({ e with parallel := false }.history book d) after')
    (failed : r.progress ≠ .done) :
    ∃ rule fault p, r.FailedFirst rule fault ∧ fault.path? = some p ∧
      ∀ q ∈ e.candidates book d,
        (q = p → ¬d.isReadable q) ∧
        (q.Precedes p → d.isReadable q ∧ after'.AlikeAt after q) := by
  cases begun : book.rules with
  | nil => exact absurd (done_of_no_rules verdicts rulebook begun) failed
  | cons rule rest =>
    cases faulty : e.fault? book d with
    | none => exact absurd (done_of_clear verdicts rulebook faulty) failed
    | some fault =>
      obtain ⟨p, named⟩ := exists_path_of_fault faulty
      refine ⟨rule, fault, p, failedFirst_of_fault verdicts rulebook faulty begun, named, ?_⟩
      obtain ⟨place, charted⟩ := candidates_charts sound e book
      intro q member
      cases collected : Scan.collect d (e.search book.extensions) with
      | error cause =>
        rw [candidates_of_walk collected] at member
        cases member
      | ok files =>
        rw [candidates_of_collect collected] at charted member
        -- Both modes go over what stands in front of the first file that cannot be read.
        obtain ⟨p', member', cause, lost, rfl, first⟩ :=
          exists_first_unreadable charted.ordered collected faulty
        obtain rfl : p' = p := by simpa [Fault.path?] using named
        refine ⟨?_, fun before => ⟨first q member before, ?_⟩⟩
        · rintro rfl
          simp [Disk.not_isReadable_iff.mpr ⟨cause, lost⟩]
        · have taken (mode : Bool) : { e with parallel := mode }.history book d q = [rule] :=
            history_of_precedes charted.ordered collected faulty begun member' lost first member
              before
          rw [candidates_of_collect collected] at follows follows'
          exact follows'.alikeAt follows rfl charted member ((taken false).trans (taken true).symm)

/-- Two parallel runs and a sequential run on the same workspace, in any orders of the visits. -/
theorem parallel_agrees (sound : w.disk.root.WellFormed) (orders : schedule.Permutes)
    (orders' : schedule'.Permutes) (orders'' : schedule''.Permutes)
    (ranFirst : { e with parallel := true }.run schedule book w = (first, afterFirst))
    (ranSecond : { e with parallel := true }.run schedule' book w = (second, afterSecond))
    (ranSequential :
      { e with parallel := false }.run schedule'' book w = (sequential, afterSequential)) :
    (∀ timestamp, second.map (Run.observed timestamp) = first.map (Run.observed timestamp)) ∧
    afterSecond.Alike afterFirst ∧
    (∀ timestamp, sequential.map (Run.observed timestamp) = first.map (Run.observed timestamp)) ∧
    ∀ r, first = .ok r →
      (r.progress = .done → afterSequential.Alike afterFirst) ∧
      (r.progress ≠ .done → ∃ rule fault p, r.FailedFirst rule fault ∧ fault.path? = some p ∧
        ∀ q ∈ e.candidates book w.disk,
          (q = p → ¬w.disk.isReadable q) ∧
          (q.Precedes p → w.disk.isReadable q ∧ afterSequential.AlikeAt afterFirst q)) := by
  have seen (timestamp : String) := run_observed (e := { e with parallel := true }) sound orders
    book timestamp
  simp only [ranFirst] at seen
  refine ⟨fun timestamp => ?_, ?_, fun timestamp => ?_, ?_⟩
  · have seen' := run_observed (e := { e with parallel := true }) sound orders' book timestamp
    rw [ranSecond] at seen'
    exact seen'.trans (seen timestamp).symm
  · by_cases rooted : w.disk.isFolder e.root
    · exact (final_follows sound orders' ranSecond rooted).alike
        (final_follows sound orders ranFirst rooted) rfl fun _ _ => rfl
    · rw [final_of_no_root ranSecond rooted, final_of_no_root ranFirst rooted]
      exact ⟨rfl, fun _ => rfl⟩
  · have seen' := run_observed (e := { e with parallel := false }) sound orders'' book timestamp
    rw [ranSequential] at seen'
    exact seen'.trans (seen timestamp).symm
  · rintro r rfl
    obtain ⟨rooted, rulebook, verdicts, follows⟩ := of_run sound orders ranFirst
    have follows' := final_follows sound orders'' ranSequential rooted
    constructor
    · intro done
      have ended := clear_of_done verdicts rulebook done
      have taken (mode : Bool) (p : Path) :
          { e with parallel := mode }.history book w.disk p = book.rules :=
        history_of_ended (e := { e with parallel := mode }) ended p
      exact follows'.alike follows rfl fun p _ => (taken false p).trans (taken true p).symm
    · intro failed
      exact sequential_of_failed sound verdicts rulebook follows follows' failed

/-- With a file in the middle that is no text, a later file is written in parallel mode only. -/
theorem parallel_agrees_chained :
    ∃ r second sequential afterFirst afterSecond afterSequential,
      Editor.run ⟨[Path.slash], [], false, true⟩ Schedule.inOrder chainedRules
        ⟨chainedDisk [255], []⟩ = (.ok r, afterFirst) ∧
      Editor.run ⟨[Path.slash], [], false, true⟩ (fun _ files => files.reverse) chainedRules
        ⟨chainedDisk [255], []⟩ = (second, afterSecond) ∧
      Editor.run ⟨[Path.slash], [], false, false⟩ Schedule.inOrder chainedRules
        ⟨chainedDisk [255], []⟩ = (sequential, afterSequential) ∧
      afterSecond.Alike afterFirst ∧
      afterSequential.AlikeAt afterFirst (Path.ofText "/x.md") ∧
      afterSequential.disk.readText (Path.ofText "/z.md") = .ok "ab" ∧
      afterFirst.disk.readText (Path.ofText "/z.md") = .ok "bb" := by
  obtain ⟨r, second, sequential, afterFirst, afterSecond, afterSequential, ranFirst, ranSecond,
      ranSequential, failed, named, kept, written⟩ :
      ∃ r second sequential afterFirst afterSecond afterSequential,
        Editor.run ⟨[Path.slash], [], false, true⟩ Schedule.inOrder chainedRules
          ⟨chainedDisk [255], []⟩ = (.ok r, afterFirst) ∧
        Editor.run ⟨[Path.slash], [], false, true⟩ (fun _ files => files.reverse) chainedRules
          ⟨chainedDisk [255], []⟩ = (second, afterSecond) ∧
        Editor.run ⟨[Path.slash], [], false, false⟩ Schedule.inOrder chainedRules
          ⟨chainedDisk [255], []⟩ = (sequential, afterSequential) ∧
        r.progress ≠ .done ∧
        (r.report "").attempts.map (·.outcome) = [.failed
          (Fault.access (Path.ofText "/y.md") .notText).message (some (Path.ofText "/y.md"))] ∧
        afterSequential.disk.readText (Path.ofText "/z.md") = .ok "ab" ∧
        afterFirst.disk.readText (Path.ofText "/z.md") = .ok "bb" :=
    ⟨_, _, _, _, _, _, rfl, rfl, rfl, by decide +kernel, by decide +kernel, by decide +kernel,
      by decide +kernel⟩
  obtain ⟨_, alike, _, agrees⟩ := parallel_agrees (e := ⟨[Path.slash], [], false, true⟩)
    (chainedDisk_wellFormed [255]) (fun _ files => .refl files)
    (fun _ files => files.reverse_perm) (fun _ files => .refl files) ranFirst ranSecond
    ranSequential
  obtain ⟨rule, fault, p, first, path, files⟩ := (agrees r rfl).2 failed
  rw [first.attempts, List.map_singleton, List.singleton_inj, Outcome.failed.injEq, path,
    Option.some.injEq] at named
  obtain rfl := named.2
  exact ⟨r, second, sequential, afterFirst, afterSecond, afterSequential, ranFirst, ranSecond,
    ranSequential, alike,
    ((files (Path.ofText "/x.md") (by decide +kernel)).2 (by decide +kernel)).2, kept, written⟩

end Editor

end Codemod
