import Codemod.Proofs.Editor.Visit
import Mathlib.Algebra.GroupWithZero.Nat
import Mathlib.Data.List.TakeWhile

/-! One rule's pass over the collected files. Its outcome is that of the visits in path order: the
first failure, or else a tally of what every file came to. Both modes have the same outcome, and
they differ in which files they still go to after a failure. -/
namespace Codemod

def Tally.ofCounts (counts : List Nat) : Tally :=
  ⟨counts.length, counts.countP (· ≠ 0), counts.sum⟩

theorem Tally.foldl_record (counts : List Nat) (t : Tally) :
    counts.foldl Tally.record t = t.add (Tally.ofCounts counts) := by
  induction counts generalizing t with
  | nil => rfl
  | cons n counts ih =>
    rw [List.foldl_cons, ih]
    by_cases none_found : n = 0 <;>
      simp [record, none_found, add, ofCounts] <;> omega

namespace Disk

/-- The text of a file, or nothing where it cannot be read. -/
def textAt (d : Disk) (p : Path) : String := (d.readText p).toOption.getD ""

/-- The fault that ends a rule at a file which cannot be read. -/
def fault? (d : Disk) (p : Path) : Option Fault :=
  match d.readText p with
  | .ok _ => none
  | .error cause => some (.access p cause)

theorem fault?_eq_none_iff {d : Disk} {p : Path} : d.fault? p = none ↔ d.isReadable p := by
  unfold fault? isReadable
  cases d.readText p <;> simp [Except.toOption]

/-- What a rule comes to over files with a history. -/
def passOutcome (start : Disk) (files : List Path) (h : History) (rule : Rule) :
    Except Fault Tally :=
  match files.findSome? start.fault? with
  | some fault => .error fault
  | none => .ok (Tally.ofCounts
      (files.map fun p => rule.count (Rule.replaceAll (h p) (start.textAt p))))

end Disk

/-- In a list without repetition a front part is found again by its members. -/
theorem filter_mem_front [BEq α] [LawfulBEq α] {front back : List α} (once : (front ++ back).Nodup) :
    (front ++ back).filter (· ∈ front) = front := by
  have apart := (List.nodup_append.mp once).2.2
  have inside : front.filter (· ∈ front) = front := List.filter_eq_self.mpr (by simp)
  have outside : back.filter (· ∈ front) = [] := List.filter_eq_nil_iff.mpr fun x behind ahead =>
    apart x (by simpa using ahead) x behind rfl
  rw [List.filter_append, inside, outside, List.append_nil]

namespace Pass

theorem settle_append (t : Tally) (front back : List (Except Fault Nat)) :
    settle t (front ++ back) =
      match settle t front with
      | .error fault => .error fault
      | .ok t' => settle t' back := by
  induction front generalizing t with
  | nil => rfl
  | cons result front ih =>
    cases result with
    | error fault => rfl
    | ok n => simpa [settle] using ih (t.record n)

theorem settle_visitResults (start : Disk) (files : List Path) (h : History) (rule : Rule)
    (t : Tally) :
    settle t (files.map (start.visitResult h rule)) =
      match files.findSome? start.fault? with
      | some fault => .error fault
      | none => .ok ((files.map fun p =>
          rule.count (Rule.replaceAll (h p) (start.textAt p))).foldl Tally.record t) := by
  induction files generalizing t with
  | nil => rfl
  | cons p files ih =>
    cases read : start.readText p with
    | error cause => simp [Disk.visitResult, read, settle, Disk.fault?]
    | ok text =>
      simp only [List.map_cons, Disk.visitResult, read, settle, List.findSome?_cons, Disk.fault?,
        ih, List.foldl_cons, Disk.textAt, Except.toOption, Option.getD_some]

theorem settle_eq_passOutcome (start : Disk) (files : List Path) (h : History) (rule : Rule) :
    settle .zero (files.map (start.visitResult h rule)) = start.passOutcome files h rule := by
  rw [settle_visitResults, Disk.passOutcome]
  simp [Tally.foldl_record, Tally.add, Tally.zero]

/-- Nothing behind a file that cannot be read has a part in the outcome. -/
theorem settle_of_unreadable {start : Disk} {p : Path} {cause : Refusal}
    (lost : start.readText p = .error cause) (front back : List Path) (h : History) (rule : Rule) :
    settle .zero ((front ++ [p]).map (start.visitResult h rule)) =
      start.passOutcome (front ++ p :: back) h rule := by
  have failed : start.visitResult h rule p = .error (.access p cause) := by
    simp [Disk.visitResult, lost]
  rw [← settle_eq_passOutcome, List.map_append, List.map_append, settle_append, settle_append]
  cases settle .zero (front.map (start.visitResult h rule)) with
  | error fault => rfl
  | ok t => simp [failed, settle]

/-- The results in path order, whatever the order of the visits was. -/
theorem results_map (found : Except Fault (List Path)) (visited files : List Path)
    (result : Path → Except Fault Nat) :
    results ⟨found, visited.map fun p => ⟨p, result p⟩⟩ files =
      (files.filter (· ∈ visited)).map result := by
  have looked_up (p : Path) :
      ((visited.map fun q => (⟨q, result q⟩ : Visit)).find? (·.path = p)).map (·.result) =
        if p ∈ visited then some (result p) else none := by
    induction visited with
    | nil => rfl
    | cons q visited ih =>
      by_cases same : q = p
      · subst same; simp
      · rw [List.map_cons, List.find?_cons_of_neg (by simpa using same), ih]
        simp [Ne.symm same]
  induction files with
  | nil => rfl
  | cons p files ih =>
    simp only [results, List.filterMap_cons, looked_up] at ih ⊢
    by_cases member : p ∈ visited <;> simp [member, ih]

end Pass

/-- The visits of a rule go over the files in some order. -/
def Schedule.Permutes (schedule : Schedule) : Prop :=
  ∀ index files, (schedule index files).Perm files

namespace Editor

open Scan

/-- The files that a rule goes over: in parallel mode all that can be read, in sequential mode those
in front of the first that cannot. -/
def goesOver (e : Editor) (start : Disk) (files : List Path) : List Path :=
  if e.parallel then files.filter start.isReadable else files.takeWhile start.isReadable

theorem goesOver_of_readable {e : Editor} {start : Disk} {files : List Path}
    (readable : ∀ p ∈ files, start.isReadable p) : e.goesOver start files = files := by
  unfold goesOver
  split
  · exact List.filter_eq_self.mpr readable
  · exact List.takeWhile_eq_self_iff.mpr readable

variable {e : Editor} {start : Disk} {files : List Path} {place : Path → Location} {h : History}
  {w : Workspace}

theorem Follows.collect {s : Search} (follows : e.Follows start files h w) :
    Scan.collect w.disk s = Scan.collect start s := by
  rw [follows.disk]
  split
  · rfl
  · exact Scan.collect_revise _ _ _

theorem Follows.history_congr {h' : History} (follows : e.Follows start files h w)
    (same : ∀ p ∈ files, h p = h' p) : e.Follows start files h' w := by
  have edits : start.edited files h = start.edited files h' := by
    unfold Disk.edited
    congr 1
    funext location leaf
    cases owned : start.owner? files location with
    | none => rfl
    | some p => simp only [same p (List.mem_of_find?_eq_some owned)]
  have drafts (p : Path) : start.draft? files h p = start.draft? files h' p := by
    unfold Disk.draft?
    cases found : files.find? (·.components = p.components) with
    | none => rfl
    | some q => simp only [Option.bind_some, same q (List.mem_of_find?_eq_some found)]
  exact ⟨by rw [← edits]; exact follows.disk, fun p => by rw [← drafts]; exact follows.drafts p⟩

theorem Follows.pass_parallel (follows : e.Follows start files h w) (sound : start.root.WellFormed)
    (charted : Charts start files place) {order : List Path} (perm : order.Perm files)
    (rule : Rule) :
    Pass.settle .zero (Pass.results ⟨.ok files, (e.visitAll rule order w).1⟩ files) =
        start.passOutcome files h rule ∧
      e.Follows start files (h.add (files.filter start.isReadable) rule)
        (e.visitAll rule order w).2 := by
  obtain ⟨w', visited, after⟩ := follows.visitAll sound charted
    (fun p member => perm.mem_iff.mp member)
    (perm.nodup_iff.mpr (nodup_of_ordered charted.ordered)) rule
  rw [visited]
  refine ⟨?_, after.history_congr fun p _ => ?_⟩
  · have everywhere : files.filter (· ∈ order) = files :=
      List.filter_eq_self.mpr fun p member => by simpa using perm.mem_iff.mpr member
    rw [Pass.results_map, everywhere, Pass.settle_eq_passOutcome]
  · simp only [History.add, List.mem_filter, perm.mem_iff]

/-- Without an unreadable file the visits go through to the end. -/
theorem Follows.pass_clear (follows : e.Follows start files h w) (sound : start.root.WellFormed)
    (charted : Charts start files place) (readable : ∀ p ∈ files, start.isReadable p)
    (rule : Rule) :
    Pass.settle .zero (Pass.results ⟨.ok files, (e.visitUntilFailure rule files w).1⟩ files) =
        start.passOutcome files h rule ∧
      e.Follows start files (h.add files rule) (e.visitUntilFailure rule files w).2 := by
  obtain ⟨w', visited, after⟩ := follows.visitUntilFailure_append [] sound charted
    (fun _ member => member) (nodup_of_ordered charted.ordered) readable rule
  rw [List.append_nil] at visited
  rw [visited]
  refine ⟨?_, after⟩
  have everywhere : files.filter (· ∈ files) = files := List.filter_eq_self.mpr (by simp)
  rw [Editor.visitUntilFailure, List.append_nil, Pass.results_map, everywhere,
    Pass.settle_eq_passOutcome]

/-- The visits end at the first unreadable file, whose failure is the outcome. -/
theorem Follows.pass_stopped {front back : List Path} {p : Path} {cause : Refusal}
    (follows : e.Follows start files h w) (sound : start.root.WellFormed)
    (charted : Charts start files place) (split : files = front ++ p :: back)
    (readable : ∀ q ∈ front, start.isReadable q) (lost : start.readText p = .error cause)
    (rule : Rule) :
    Pass.settle .zero (Pass.results ⟨.ok files, (e.visitUntilFailure rule files w).1⟩ files) =
        start.passOutcome files h rule ∧
      e.Follows start files (h.add front rule) (e.visitUntilFailure rule files w).2 := by
  have once := nodup_of_ordered charted.ordered
  have member : p ∈ files := by rw [split]; simp
  obtain ⟨w', visited, after⟩ := follows.visitUntilFailure_append (p :: back) sound charted
    (fun q ahead => by rw [split]; exact List.mem_append_left _ ahead)
    (List.nodup_append.mp (split ▸ once)).1 readable rule
  rw [← split, after.visitUntilFailure_unreadable back charted member lost] at visited
  rw [visited]
  refine ⟨?_, after⟩
  have failed : start.visitResult (h.add front rule) rule p = start.visitResult h rule p := by
    simp [Disk.visitResult, lost]
  have visits : front.map (fun q => (⟨q, start.visitResult h rule q⟩ : Visit)) ++
      [⟨p, start.visitResult h rule p⟩] =
      (front ++ [p]).map fun q => ⟨q, start.visitResult h rule q⟩ := by simp
  have reached : files.filter (· ∈ front ++ [p]) = front ++ [p] := by
    have shifted : files = (front ++ [p]) ++ back := by simp [split]
    rw [shifted] at once ⊢
    exact filter_mem_front once
  rw [failed, visits, Pass.results_map, reached, Pass.settle_of_unreadable lost _ back, ← split]

theorem Follows.pass_sequential (follows : e.Follows start files h w)
    (sound : start.root.WellFormed) (charted : Charts start files place) (rule : Rule) :
    Pass.settle .zero (Pass.results ⟨.ok files, (e.visitUntilFailure rule files w).1⟩ files) =
        start.passOutcome files h rule ∧
      e.Follows start files (h.add (files.takeWhile start.isReadable) rule)
        (e.visitUntilFailure rule files w).2 := by
  have split := List.takeWhile_append_dropWhile (p := start.isReadable) (l := files)
  have front : ∀ p ∈ files.takeWhile start.isReadable, start.isReadable p := fun p ahead =>
    List.mem_takeWhile_imp ahead
  cases stopped : files.dropWhile start.isReadable with
  | nil =>
    rw [stopped, List.append_nil] at split
    rw [split] at front ⊢
    exact follows.pass_clear sound charted front rule
  | cons p back =>
    have unread : start.isReadable p = false := by
      have head := List.head?_dropWhile_not start.isReadable files
      rwa [stopped] at head
    obtain ⟨cause, lost⟩ := Disk.not_isReadable_iff.mp unread
    exact follows.pass_stopped sound charted (by rw [← stopped, split]) front lost rule

/-- One rule over all collected files: its outcome, and the files it goes over. -/
theorem Follows.pass (follows : e.Follows start files h w) (sound : start.root.WellFormed)
    (charted : Charts start files place) {extensions : List String}
    (collected : Scan.collect start (e.search extensions) = .ok files)
    {order : List Path → List Path} (perm : (order files).Perm files) (rule : Rule) :
    (e.pass order rule extensions w).1.outcome = start.passOutcome files h rule ∧
      e.Follows start files (h.add (e.goesOver start files) rule)
        (e.pass order rule extensions w).2 := by
  simp only [Editor.pass, follows.collect, collected, Pass.outcome, goesOver]
  split
  · exact follows.pass_parallel sound charted perm rule
  · exact follows.pass_sequential sound charted rule

end Editor

end Codemod
