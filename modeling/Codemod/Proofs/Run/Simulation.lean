import Codemod.Proofs.Run.Outcome

/-! A dry run foretells the real run. It is seen to do the same, and its drafts are the texts that
the real run writes, file by file. -/
namespace Codemod

/-- A report without what tells when the run took place and whether it was dry. -/
def Report.plain (r : Report) : Report := { r with timestamp := "", dryRun := false }

def Notice.plain : Notice → Notice
  | .finished report => .finished report.plain
  | notice => notice

/-- What is seen of a run, without the time and the mode. -/
def Run.plainly (timestamp : String) (r : Run) : Report × List Notice :=
  (r.observed timestamp).map Report.plain (List.map Notice.plain)

/-- The file behind a path has been opened for writing, and holds the text now. -/
def Disk.Rewritten (before after : Disk) (p : Path) (text : String) : Prop :=
  ∃ content revision revision', before.entry p = .ok (.file content revision) ∧
    after.entry p = .ok (.file (Utf8.encode text) revision') ∧ revision < revision'

section

open Scan

variable {start : Disk} {files : List Path} {place : Path → Location} {h : History} {p : Path}

/-- The rules of a history leave a draft of a file exactly if they write the file. -/
theorem draft?_eq_some_iff (charted : Charts start files place) (member : p ∈ files)
    (text : String) :
    start.draft? files h p = some text ↔ start.Rewritten (start.edited files h) p text := by
  rw [draft?_of_mem charted.ordered member]
  cases read : start.readText p with
  | error cause =>
    -- Without a text there is neither a draft nor a file that is written.
    have kept := entry_edited_of_unread (h := h) charted member read
    constructor
    · intro drafted
      simp [Except.toOption] at drafted
    · rintro ⟨content, revision, revision', before, after, newer⟩
      rw [kept, before] at after
      cases after
      exact absurd newer (Nat.lt_irrefl _)
  | ok first =>
    obtain ⟨content, revision, standing, amended⟩ :=
      entry_edited_of_readText (h := h) charted member read
    simp only [Except.toOption, Option.bind_some]
    constructor
    · intro drafted
      have opened := Rule.hits_ne_zero_of_draft? drafted
      rw [drafted, Option.map_some, Option.getD_some] at amended
      exact ⟨content, revision, revision + Rule.hits (h p) first, standing, amended, by omega⟩
    · rintro ⟨content', revision', revision'', before, after, newer⟩
      rw [standing] at before
      cases before
      rw [amended] at after
      simp only [Except.ok.injEq, Entry.file.injEq] at after
      obtain ⟨written, rfl⟩ := after
      cases drafted : Rule.draft? (h p) first with
      | none =>
        have unopened := Rule.draft?_eq_none_iff.mp drafted
        omega
      | some last =>
        rw [drafted, Option.map_some, Option.getD_some] at written
        rw [Utf8.encode_injective written]

theorem entry_edited_of_no_draft (charted : Charts start files place) (member : p ∈ files)
    (undrafted : start.draft? files h p = none) :
    (start.edited files h).entry p = start.entry p := by
  rw [draft?_of_mem charted.ordered member] at undrafted
  cases read : start.readText p with
  | error cause => exact entry_edited_of_unread charted member read
  | ok first =>
    obtain ⟨content, revision, standing, amended⟩ :=
      entry_edited_of_readText (h := h) charted member read
    simp only [read, Except.toOption, Option.bind_some] at undrafted
    rw [undrafted, Rule.draft?_eq_none_iff.mp undrafted] at amended
    rw [amended, standing]
    rfl

end

namespace Editor

variable {e : Editor} {schedule schedule' : Schedule} {book : Rulebook} {d : Disk}
  {old old' : Drafts} {outcome outcome' : Except Fault Run} {dry real : Workspace}

theorem plain_observed (e : Editor) (total : Nat) (verdicts : List Verdict)
    (timestamp timestamp' : String) (mode mode' : Bool) :
    (Verdict.observed { e with dryRun := mode } total verdicts timestamp).map
        Report.plain (List.map Notice.plain) =
      (Verdict.observed { e with dryRun := mode' } total verdicts timestamp').map
        Report.plain (List.map Notice.plain) := by
  simp [Verdict.observed, Verdict.report, Report.assemble, Notice.plain, Report.plain]

/-- A dry run and a real run on the same disk, in any orders of the visits and whatever drafts there
were: both are seen to do the same, and a file has a draft exactly if the real run writes it. -/
theorem dry_run_simulates (sound : d.root.WellFormed) (orders : schedule.Permutes)
    (orders' : schedule'.Permutes)
    (tried : { e with dryRun := true }.run schedule book ⟨d, old⟩ = (outcome, dry))
    (ran : { e with dryRun := false }.run schedule' book ⟨d, old'⟩ = (outcome', real)) :
    (∀ timestamp timestamp',
      outcome.map (Run.plainly timestamp) = outcome'.map (Run.plainly timestamp')) ∧
    dry.disk = d ∧
    ∀ p ∈ e.candidates book d,
      (∀ text, dry.drafts.get? p = some text ↔ d.Rewritten real.disk p text) ∧
      (dry.drafts.get? p = none → real.disk.entry p = d.entry p) := by
  refine ⟨fun timestamp timestamp' => ?_, ?_⟩
  · have seen := run_observed (w := ⟨d, old⟩) sound orders book timestamp
      (e := { e with dryRun := true })
    have seen' := run_observed (w := ⟨d, old'⟩) sound orders' book timestamp'
      (e := { e with dryRun := false })
    rw [tried] at seen
    rw [ran] at seen'
    have plainly (timestamp : String) (result : Except Fault Run) :
        result.map (Run.plainly timestamp) = (result.map (Run.observed timestamp)).map
          (Prod.map Report.plain (List.map Notice.plain)) := by
      cases result <;> rfl
    rw [plainly, plainly, seen, seen']
    by_cases rooted : d.isFolder e.root
    · rw [if_pos rooted, if_pos rooted]
      exact congrArg Except.ok (plain_observed e _ _ timestamp timestamp' true false)
    · rw [if_neg rooted, if_neg rooted]
  · by_cases rooted : d.isFolder e.root
    · obtain ⟨place, charted⟩ := candidates_charts sound e book
      obtain ⟨untouched, drafted⟩ := final_follows sound orders tried rooted
      obtain ⟨written, _⟩ := final_follows sound orders' ran rooted
      simp only [if_true] at untouched drafted
      simp only [Bool.false_eq_true, if_false] at written
      refine ⟨untouched, fun p member => ?_⟩
      rw [drafted, written]
      exact ⟨draft?_eq_some_iff charted member, entry_edited_of_no_draft charted member⟩
    · rw [final_of_no_root tried rooted, candidates_of_no_root rooted]
      exact ⟨rfl, by simp⟩

theorem dry_run_simulates_chained :
    ∃ outcome outcome' dry real,
      Editor.run ⟨[Path.slash], [], true, true⟩ (fun _ files => files.reverse) chainedRules
        ⟨chainedDisk [], [([.root, .name (Path.ofText "x.md")], "stale")]⟩ = (outcome, dry) ∧
      Editor.run ⟨[Path.slash], [], false, true⟩ Schedule.inOrder chainedRules
        ⟨chainedDisk [], []⟩ = (outcome', real) ∧
      (∀ timestamp timestamp',
        outcome.map (Run.plainly timestamp) = outcome'.map (Run.plainly timestamp')) ∧
      dry.drafts.get? (Path.ofText "/x.md") = some "c" ∧
      (chainedDisk []).Rewritten real.disk (Path.ofText "/x.md") "c" ∧
      real.disk.entry (Path.ofText "/y.md") = (chainedDisk []).entry (Path.ofText "/y.md") := by
  obtain ⟨outcome, outcome', dry, real, tried, ran, drafted, undrafted⟩ :
      ∃ outcome outcome' dry real,
        Editor.run ⟨[Path.slash], [], true, true⟩ (fun _ files => files.reverse) chainedRules
          ⟨chainedDisk [], [([.root, .name (Path.ofText "x.md")], "stale")]⟩ = (outcome, dry) ∧
        Editor.run ⟨[Path.slash], [], false, true⟩ Schedule.inOrder chainedRules
          ⟨chainedDisk [], []⟩ = (outcome', real) ∧
        dry.drafts.get? (Path.ofText "/x.md") = some "c" ∧
        dry.drafts.get? (Path.ofText "/y.md") = none :=
    ⟨_, _, _, _, rfl, rfl, by decide +kernel, by decide +kernel⟩
  obtain ⟨seen, _, drafts⟩ := dry_run_simulates (e := ⟨[Path.slash], [], false, true⟩)
    (chainedDisk_wellFormed []) (fun _ files => files.reverse_perm) (fun _ files => .refl files)
    tried ran
  exact ⟨outcome, outcome', dry, real, tried, ran, seen, drafted,
    ((drafts (Path.ofText "/x.md") (by decide +kernel)).1 "c").mp drafted,
    (drafts (Path.ofText "/y.md") (by decide +kernel)).2 undrafted⟩

end Editor

end Codemod
