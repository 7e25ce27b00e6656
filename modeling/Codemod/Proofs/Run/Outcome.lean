import Codemod.Proofs.Run.Ledger

/-! How a run ends. If nothing is wrong with the walk and the files then every rule is applied. Else
the first rule fails, with the fault of the walk or at the first file by path that cannot be read,
and no other rule is attempted. -/
namespace Codemod

theorem Verdict.done_of_applied {verdicts : List Verdict} {total index : Nat}
    (applied : ∀ v ∈ verdicts, ∃ tally, v.outcome = .ok tally) (some_left : verdicts ≠ [])
    (length : index + verdicts.length = total) :
    verdicts.foldl (fun state v => state.after (v.step total)) (Progress.running index) =
      .done := by
  induction verdicts generalizing index with
  | nil => exact absurd rfl some_left
  | cons v rest ih =>
    obtain ⟨tally, ok⟩ := applied v (List.mem_cons_self ..)
    have advanced : Progress.after (.running index) (v.step total) =
        if total ≤ index + 1 then .done else .running (index + 1) := by
      simp [Verdict.step, ok, Progress.after, Progress.advance]
    rw [List.foldl_cons, advanced]
    cases rest with
    | nil =>
      simp only [List.length_singleton] at length
      rw [if_pos (by omega), List.foldl_nil]
    | cons second rest =>
      simp only [List.length_cons] at length
      rw [if_neg (by omega)]
      exact ih (fun v' later => applied v' (List.mem_cons_of_mem _ later)) (by simp)
        (by simp only [List.length_cons]; omega)

/-- The first rule of a run has failed; nothing else was attempted, and nobody was told of more. -/
structure Run.FailedFirst (r : Run) (rule : Rule) (fault : Fault) : Prop where
  progress : r.progress = .failed 0 fault.message
  attempts : ∀ timestamp, (r.report timestamp).attempts =
    [⟨0, rule, .failed fault.message fault.path?⟩]
  notices : ∀ timestamp, r.notices timestamp =
    [.started 0 rule, .failed 0 rule fault, .finished (r.report timestamp)]

namespace Editor

open Scan

variable {e : Editor} {book : Rulebook} {d : Disk} {fault : Fault} {rule : Rule} {rest : List Rule}
  {files : List Path} {p q : Path} {cause : Refusal}

theorem of_run {schedule : Schedule} {w final : Workspace} {r : Run}
    (sound : w.disk.root.WellFormed) (orders : schedule.Permutes)
    (ran : e.run schedule book w = (.ok r, final)) :
    w.disk.isFolder e.root ∧ r.rulebook = book ∧ r.turns.map Turn.verdict = e.ledger book w.disk ∧
      e.Follows w.disk (e.candidates book w.disk) (e.history book w.disk) final := by
  by_cases rooted : w.disk.isFolder e.root
  · obtain ⟨turns, final', taken, verdicts, follows⟩ := run_of_root sound orders book rooted
    rw [ran, Prod.mk.injEq, Except.ok.injEq] at taken
    obtain ⟨rfl, rfl⟩ := taken
    exact ⟨rooted, rfl, verdicts, follows⟩
  · rw [run_of_no_root schedule book (by simpa using rooted)] at ran
    simp at ran

theorem final_follows {schedule : Schedule} {w final : Workspace} {outcome : Except Fault Run}
    (sound : w.disk.root.WellFormed) (orders : schedule.Permutes)
    (ran : e.run schedule book w = (outcome, final)) (rooted : w.disk.isFolder e.root) :
    e.Follows w.disk (e.candidates book w.disk) (e.history book w.disk) final := by
  obtain ⟨turns, final', taken, _, follows⟩ := run_of_root sound orders book rooted
  rw [ran, Prod.mk.injEq] at taken
  obtain ⟨_, rfl⟩ := taken
  exact follows

theorem final_of_no_root {schedule : Schedule} {w final : Workspace} {outcome : Except Fault Run}
    (ran : e.run schedule book w = (outcome, final)) (rootless : ¬w.disk.isFolder e.root) :
    final = w := by
  rw [run_of_no_root schedule book (by simpa using rootless), Prod.mk.injEq] at ran
  exact ran.2.symm

theorem candidates_of_no_root (rootless : ¬d.isFolder e.root) : e.candidates book d = [] := by
  have missing : d.folder? e.root = none := by simpa [Disk.isFolder] using rootless
  simp [candidates, Scan.collect, search, missing, Except.toOption]

theorem ledger_of_clear (clear : e.fault? book d = none) :
    e.ledger book d = book.rules.zipIdx.map fun (rule, k) =>
      ⟨k, rule, .ok (tally (e.candidates book d) d (book.rules.take k) rule)⟩ := by
  simp [ledger, clear]

theorem ledger_of_fault (faulty : e.fault? book d = some fault)
    (begun : book.rules = rule :: rest) : e.ledger book d = [⟨0, rule, .error fault⟩] := by
  simp [ledger, faulty, begun]

theorem progress_of_clear (clear : e.fault? book d = none) :
    Verdict.progress book.rules.length (e.ledger book d) = .done := by
  rw [ledger_of_clear clear, Verdict.progress]
  cases begun : book.rules with
  | nil => rfl
  | cons rule rest =>
    refine Verdict.done_of_applied ?_ (by simp) (by simp)
    intro v member
    obtain ⟨⟨rule', k⟩, _, rfl⟩ := List.mem_map.mp member
    exact ⟨_, rfl⟩

theorem failedFirst_of_fault {r : Run} (verdicts : r.turns.map Turn.verdict = e.ledger book d)
    (rulebook : r.rulebook = book) (faulty : e.fault? book d = some fault)
    (begun : book.rules = rule :: rest) : r.FailedFirst rule fault := by
  have only := verdicts.trans (ledger_of_fault faulty begun)
  refine ⟨?_, fun timestamp => ?_, fun timestamp => ?_⟩
  · rw [Run.progress_eq, only]
    simp [Run.total, rulebook, begun, Verdict.progress, Verdict.step, Progress.start,
      Progress.after, Progress.fail]
  · rw [Run.report_eq, only]
    rfl
  · rw [Run.notices_eq, only]
    rfl

theorem done_of_clear {r : Run} (verdicts : r.turns.map Turn.verdict = e.ledger book d)
    (rulebook : r.rulebook = book) (clear : e.fault? book d = none) : r.progress = .done := by
  rw [Run.progress_eq, verdicts, Run.total, rulebook, progress_of_clear clear]

theorem done_of_no_rules {r : Run} (verdicts : r.turns.map Turn.verdict = e.ledger book d)
    (rulebook : r.rulebook = book) (no_rules : book.rules = []) : r.progress = .done := by
  have no_turns : r.turns.map Turn.verdict = [] := by
    rw [verdicts, ledger]
    split <;> simp [no_rules]
  rw [Run.progress_eq, no_turns, Run.total, rulebook, no_rules]
  rfl

theorem clear_of_done {r : Run} (verdicts : r.turns.map Turn.verdict = e.ledger book d)
    (rulebook : r.rulebook = book) (done : r.progress = .done) :
    book.rules = [] ∨ e.fault? book d = none := by
  cases begun : book.rules with
  | nil => exact Or.inl rfl
  | cons rule rest =>
    right
    cases faulty : e.fault? book d with
    | none => rfl
    | some fault =>
      have failed := (failedFirst_of_fault verdicts rulebook faulty begun).progress
      rw [done] at failed
      cases failed

theorem candidates_charts (sound : d.root.WellFormed) (e : Editor) (book : Rulebook) :
    ∃ place, Charts d (e.candidates book d) place := by
  cases collected : Scan.collect d (e.search book.extensions) with
  | error fault => exact ⟨fun _ => [], candidates_of_walk collected ▸ nil_charts d⟩
  | ok files => exact candidates_of_collect collected ▸ exists_charts sound collected

/-- Nothing is wrong with a disk if the walk succeeds and all files it finds can be read. -/
theorem fault?_eq_none_iff : e.fault? book d = none ↔
    ∃ files, Scan.collect d (e.search book.extensions) = .ok files ∧
      ∀ p ∈ files, d.isReadable p := by
  unfold fault?
  cases Scan.collect d (e.search book.extensions) with
  | error fault => simp
  | ok files => simp [List.findSome?_eq_none_iff, Disk.fault?_eq_none_iff]

theorem exists_path_of_fault (faulty : e.fault? book d = some fault) :
    ∃ q, fault.path? = some q := by
  unfold fault? at faulty
  split at faulty
  · next walked =>
    cases faulty
    exact exists_path_of_collect walked
  · obtain ⟨q, _, here⟩ := List.exists_of_findSome?_eq_some faulty
    unfold Disk.fault? at here
    split at here <;> cases here
    exact ⟨q, rfl⟩

theorem history_of_ended (ended : book.rules = [] ∨ e.fault? book d = none) (p : Path) :
    e.history book d p = book.rules := by
  rcases ended with no_rules | clear
  · cases faulty : e.fault? book d with
    | none => simp [history, faulty]
    | some fault => simp [history, faulty, no_rules, History.only]
  · simp [history, clear]

theorem history_of_fault (faulty : e.fault? book d = some fault) (begun : book.rules = rule :: rest)
    (p : Path) :
    e.history book d p = if p ∈ e.goesOver d (e.candidates book d) then [rule] else [] := by
  simp [history, faulty, begun, History.only]

/-- What is in front of a file comes before it by path. -/
theorem mem_front_of_precedes {front back : List Path}
    (ordered : (front ++ p :: back).Pairwise Path.Precedes) (member : q ∈ front ++ p :: back)
    (before : q.Precedes p) : q ∈ front := by
  obtain ⟨_, behind, _⟩ := List.pairwise_append.mp ordered
  have later := (List.pairwise_cons.mp behind).1
  rcases List.mem_append.mp member with ahead | member
  · exact ahead
  · rcases List.mem_cons.mp member with rfl | after
    · exact absurd before q.not_precedes_self
    · exact absurd (before.trans (later q after)) q.not_precedes_self

/-- After a walk the fault is that of the first file by path that cannot be read. -/
theorem exists_first_unreadable (ordered : files.Pairwise Path.Precedes)
    (collected : Scan.collect d (e.search book.extensions) = .ok files)
    (faulty : e.fault? book d = some fault) :
    ∃ p ∈ files, ∃ cause, d.readText p = .error cause ∧ fault = .access p cause ∧
      ∀ q ∈ files, q.Precedes p → d.isReadable q := by
  simp only [fault?, collected] at faulty
  obtain ⟨front, p, back, rfl, here, clear⟩ := List.findSome?_eq_some_iff.mp faulty
  cases lost : d.readText p with
  | ok text => simp [Disk.fault?, lost] at here
  | error cause =>
    simp only [Disk.fault?, lost, Option.some.injEq] at here
    refine ⟨p, by simp, cause, lost, here.symm, fun q member before => ?_⟩
    exact Disk.fault?_eq_none_iff.mp (clear q (mem_front_of_precedes ordered member before))

/-- Which files are gone over when one cannot be read. -/
theorem mem_goesOver_iff (ordered : files.Pairwise Path.Precedes) (member : p ∈ files)
    (lost : d.readText p = .error cause) (first : ∀ q ∈ files, q.Precedes p → d.isReadable q) :
    q ∈ e.goesOver d files ↔ q ∈ files ∧ d.isReadable q ∧ (e.parallel ∨ q.Precedes p) := by
  unfold goesOver
  split
  · next parallel => simp [List.mem_filter, parallel]
  · next sequential =>
    obtain ⟨front, back, rfl⟩ := List.append_of_mem member
    have unread : d.isReadable p = false := Disk.not_isReadable_iff.mpr ⟨cause, lost⟩
    have apart := (List.pairwise_append.mp ordered).2.2
    have readable : ∀ q ∈ front, d.isReadable q := fun q ahead =>
      first q (List.mem_append_left _ ahead) (apart q ahead p (List.mem_cons_self ..))
    have taken : (front ++ p :: back).takeWhile d.isReadable = front := by
      rw [List.takeWhile_append_of_pos readable, List.takeWhile_cons_of_neg (by simp [unread]),
        List.append_nil]
    rw [taken]
    constructor
    · intro ahead
      exact ⟨List.mem_append_left _ ahead, readable q ahead,
        Or.inr (apart q ahead p (List.mem_cons_self ..))⟩
    · rintro ⟨inside, _, here | before⟩
      · exact absurd here sequential
      · exact mem_front_of_precedes ordered inside before

/-- The first rule goes over every file in front of the failing one, in both modes. -/
theorem history_of_precedes (ordered : files.Pairwise Path.Precedes)
    (collected : Scan.collect d (e.search book.extensions) = .ok files)
    (faulty : e.fault? book d = some fault) (begun : book.rules = rule :: rest)
    (member : p ∈ files) (lost : d.readText p = .error cause)
    (first : ∀ q ∈ files, q.Precedes p → d.isReadable q) (ahead : q ∈ files)
    (before : q.Precedes p) : e.history book d q = [rule] := by
  rw [history_of_fault faulty begun, candidates_of_collect collected, if_pos]
  exact (mem_goesOver_iff ordered member lost first).mpr
    ⟨ahead, first q ahead before, Or.inr before⟩

end Editor

/-- Two rules of which the second matches only what the first writes. -/
def chainedRules : Rulebook := ⟨[⟨"a", "b"⟩, ⟨"bb", "c"⟩], ["md"]⟩

/-- Two files for these rules, one between them with any content, and one with another extension. -/
def chainedDisk (content : Bytes) : Disk :=
  ⟨.file (Path.ofText "x.md") (Utf8.encode "ab") 1 (.file (Path.ofText "y.md") content 1
    (.file (Path.ofText "z.md") (Utf8.encode "ab") 1
      (.file (Path.ofText "z.txt") (Utf8.encode "ab") 1 .empty))), []⟩

theorem chainedDisk_wellFormed (content : Bytes) : (chainedDisk content).root.WellFormed := by
  have valid : ∀ name ∈ ["x.md", "y.md", "z.md", "z.txt"].map Path.ofText,
      Folder.ValidName name := by
    unfold Folder.ValidName
    decide +kernel
  have increasing : (["x.md", "y.md", "z.md", "z.txt"].map Path.ofText).Pairwise (· < ·) := by
    decide +kernel
  simp only [List.map_cons, List.map_nil, List.forall_mem_cons] at valid
  simp only [List.map_cons, List.map_nil, List.pairwise_cons] at increasing
  exact ⟨valid.1, increasing.1, valid.2.1, increasing.2.1, valid.2.2.1, increasing.2.2.1,
    valid.2.2.2.1, increasing.2.2.2.1, trivial⟩

end Codemod
