import Codemod.Proofs.Editor.Effect
import Codemod.Proofs.Run.Outcome

/-! What a run has done when it is done. Going through the tree rule by rule comes to the same as
taking each file through all rules, and the tallies count what the rules before left. -/
namespace Codemod.Editor

variable {e : Editor} {schedule : Schedule} {book : Rulebook} {w final : Workspace} {r : Run}

theorem tally_eq (files : List Path) (d : Disk) (before : List Rule) (rule : Rule) :
    tally files d before rule =
      { scanned := files.length
        changed := files.countP fun p => rule.Matches (Rule.replaceAll before (d.textAt p))
        replacements :=
          (files.map fun p => rule.count (Rule.replaceAll before (d.textAt p))).sum } := by
  simp [tally, Tally.ofCounts, List.countP_map, Function.comp_def, ← Rule.count_ne_zero_iff]

/-- A run without a fault takes every candidate through all rules. -/
theorem Follows.leaves_of_done (sound : w.disk.root.WellFormed)
    (follows : e.Follows w.disk (e.candidates book w.disk) (e.history book w.disk) final)
    (ended : book.rules = [] ∨ e.fault? book w.disk = none) :
    e.Leaves book.rules (fun p => p ∈ e.candidates book w.disk ∧ w.disk.isReadable p) w.disk
      final := by
  obtain ⟨place, charted⟩ := candidates_charts sound e book
  refine follows.leaves charted (fun p used => used.1) (fun p _ => history_of_ended ended p)
    fun p member unused => ?_
  rcases ended with no_rules | clear
  · rw [history_of_ended (Or.inl no_rules), no_rules]
  · obtain ⟨files, collected, readable⟩ := fault?_eq_none_iff.mp clear
    rw [candidates_of_collect collected] at member
    rw [candidates_of_collect collected] at unused
    exact absurd ⟨member, readable p member⟩ unused

/-- What a real run with some rule leaves when it is done: the same files are wanted as before, and
each holds its text after all rules. -/
theorem readText_of_done (sound : w.disk.root.WellFormed) (orders : schedule.Permutes)
    (real : e.dryRun = false) (some_rule : book.rules ≠ [])
    (ran : e.run schedule book w = (.ok r, final)) (done : r.progress = .done) :
    ∃ files, Scan.collect w.disk (e.search book.extensions) = .ok files ∧
      Scan.collect final.disk (e.search book.extensions) = .ok files ∧
      ∀ p ∈ files, ∃ text, w.disk.readText p = .ok text ∧
        final.disk.readText p = .ok (Rule.replaceAll book.rules text) := by
  obtain ⟨_, rulebook, verdicts, follows⟩ := of_run sound orders ran
  have ended := clear_of_done verdicts rulebook done
  obtain ⟨files, collected, readable⟩ := fault?_eq_none_iff.mp (ended.resolve_left some_rule)
  have amended := ((follows.leaves_of_done sound ended).real real).1
  rw [candidates_of_collect collected] at follows amended
  refine ⟨files, collected, follows.collect.trans collected, fun p member => ?_⟩
  obtain ⟨text, read⟩ := Disk.isReadable_iff.mp (readable p member)
  exact ⟨text, read, amended.composed p text ⟨member, readable p member⟩ read⟩

/-- A real run that is done has taken every wanted file through all rules, whatever drafts there
were, and has touched nothing else. Without a rule some files may have no text. -/
theorem done_run_composes (sound : w.disk.root.WellFormed) (orders : schedule.Permutes)
    (real : e.dryRun = false) (ran : e.run schedule book w = (.ok r, final))
    (done : r.progress = .done) :
    (book.rules = [] ∨
      ∃ files, Scan.collect w.disk (e.search book.extensions) = .ok files ∧
        ∀ p ∈ files, w.disk.isReadable p) ∧
    w.disk.Amended book.rules (fun p => p ∈ e.candidates book w.disk ∧ w.disk.isReadable p)
      final.disk ∧
    ∀ timestamp, (r.report timestamp).attempts = book.rules.zipIdx.map fun (rule, k) =>
      ⟨k, rule, .applied
        { scanned := (e.candidates book w.disk).length
          changed := (e.candidates book w.disk).countP fun p =>
            rule.Matches (Rule.replaceAll (book.rules.take k) (w.disk.textAt p))
          replacements := ((e.candidates book w.disk).map fun p =>
            rule.count (Rule.replaceAll (book.rules.take k) (w.disk.textAt p))).sum }⟩ := by
  obtain ⟨_, rulebook, verdicts, follows⟩ := of_run sound orders ran
  have ended := clear_of_done verdicts rulebook done
  refine ⟨ended.imp_right fault?_eq_none_iff.mp, ((follows.leaves_of_done sound ended).real real).1,
    fun timestamp => ?_⟩
  have attempted : (r.report timestamp).attempts = (e.ledger book w.disk).map Verdict.attempt := by
    rw [Run.report_eq, verdicts]
    rfl
  rw [attempted]
  rcases ended with no_rules | clear
  · have no_verdicts : e.ledger book w.disk = [] := by
      unfold ledger
      split <;> simp [no_rules]
    simp [no_verdicts, no_rules]
  · rw [ledger_of_clear clear, List.map_map]
    refine List.map_congr_left fun (rule, k) _ => ?_
    simp only [Function.comp_apply, Verdict.attempt, tally_eq]

theorem done_run_composes_chained :
    ∃ r final, (⟨[Path.slash], [], false, true⟩ : Editor).run (fun _ files => files.reverse)
        chainedRules ⟨chainedDisk [], [([.root, .name (Path.ofText "x.md")], "stale")]⟩ =
          (.ok r, final) ∧ final.disk.readText (Path.ofText "/x.md") = .ok "c" := by
  obtain ⟨r, final, ran, done⟩ : ∃ r final, (⟨[Path.slash], [], false, true⟩ : Editor).run
      (fun _ files => files.reverse) chainedRules
      ⟨chainedDisk [], [([.root, .name (Path.ofText "x.md")], "stale")]⟩ = (.ok r, final) ∧
        r.progress = .done := ⟨_, _, rfl, by decide +kernel⟩
  have composed := done_run_composes (chainedDisk_wellFormed []) (fun _ files => files.reverse_perm)
    rfl ran done
  exact ⟨r, final, ran, composed.2.1.composed (Path.ofText "/x.md") "ab" (by decide +kernel)
    (by decide +kernel)⟩

end Codemod.Editor
