import Codemod.Editor.Basic
import Codemod.Proofs.Rule.Series
import Codemod.Proofs.Scan.Chart

/-! What a workspace holds after some rules have been applied to some files. A history says which
rules went over each file; a real run has the outcome on the disk, and a dry run has it as drafts
over the disk as it was. -/
namespace Codemod

/-- The rules that have been applied to a file, in order. -/
abbrev History := Path → List Rule

namespace History

def add (h : History) (files : List Path) (rule : Rule) : History :=
  fun p => if p ∈ files then h p ++ [rule] else h p

/-- These rules for each of the files, and no rule for another. -/
def only (files : List Path) (rules : List Rule) : History :=
  fun p => if p ∈ files then rules else []

@[simp] theorem add_nil (h : History) (rule : Rule) : h.add [] rule = h := by
  funext p; simp [add]

/-- Files that are gone over one after another are gone over together. -/
theorem add_cons (h : History) {p : Path} {files : List Path} (rule : Rule) (apart : p ∉ files) :
    (h.add [p] rule).add files rule = h.add (p :: files) rule := by
  funext q
  by_cases same : q = p
  · subst same; simp [add, apart]
  · simp [add, same]

theorem add_of_mem {h : History} {p : Path} {files : List Path} {rule : Rule} (member : p ∈ files) :
    h.add files rule p = h p ++ [rule] := by
  simp [add, member]

theorem add_of_not_mem {h : History} {p : Path} {files : List Path} {rule : Rule}
    (apart : p ∉ files) : h.add files rule p = h p := by
  simp [add, apart]

end History

namespace Disk

def owner? (d : Disk) (files : List Path) (location : Location) : Option Path :=
  files.find? fun p => (d.locate p).toOption = some location

def edited (d : Disk) (files : List Path) (h : History) : Disk :=
  d.revise fun location leaf =>
    match d.owner? files location with
    | some p => Rule.amendAll (h p) leaf
    | none => leaf

/-- What the rules of a history leave as a draft of a file. -/
def draft? (d : Disk) (files : List Path) (h : History) (p : Path) : Option String :=
  (files.find? (·.components = p.components)).bind fun q =>
    (d.readText q).toOption.bind (Rule.draft? (h q))

end Disk

namespace Editor

/-- The workspace is what the disk `start` has become under the history. -/
structure Follows (e : Editor) (start : Disk) (files : List Path) (h : History) (w : Workspace) :
    Prop where
  disk : w.disk = if e.dryRun then start else start.edited files h
  drafts : ∀ p, w.drafts.get? p = if e.dryRun then start.draft? files h p else none

end Editor

section

open Scan

variable {e : Editor} {start : Disk} {files : List Path} {place : Path → Location} {h : History}
  {w : Workspace} {p : Path} {rule : Rule} {t : String}

theorem find?_components (ordered : files.Pairwise Path.Precedes) (member : p ∈ files) :
    files.find? (·.components = p.components) = some p := by
  cases found : files.find? (·.components = p.components) with
  | none => simpa using List.find?_eq_none.mp found p member
  | some q =>
    have same : q.components = p.components := by simpa using List.find?_some found
    rw [components_injective ordered (List.mem_of_find?_eq_some found) member same]

theorem draft?_of_mem (ordered : files.Pairwise Path.Precedes) (member : p ∈ files) :
    start.draft? files h p = (start.readText p).toOption.bind (Rule.draft? (h p)) := by
  rw [Disk.draft?, find?_components ordered member, Option.bind_some]

theorem toOption_eq_some_iff {result : Except ε α} {value : α} :
    result.toOption = some value ↔ result = .ok value := by
  cases result <;> simp [Except.toOption]

theorem owner?_eq_some_iff (charted : Charts start files place) {location : Location} :
    start.owner? files location = some p ↔ p ∈ files ∧ start.locate p = .ok location := by
  have locates {q : Path} (owned : start.owner? files location = some q) :
      start.locate q = .ok location :=
    toOption_eq_some_iff.mp (by simpa using List.find?_some owned)
  constructor
  · intro owned
    exact ⟨List.mem_of_find?_eq_some owned, locates owned⟩
  · rintro ⟨member, way⟩
    cases owned : start.owner? files location with
    | none =>
      have lost := List.find?_eq_none.mp owned p member
      simp [way, Except.toOption] at lost
    | some q =>
      have member' := List.mem_of_find?_eq_some owned
      have way' := locates owned
      rw [charted.place_injective q member' p member
        ((charted.place_of_locate member' way').trans (charted.place_of_locate member way).symm)]

@[simp] theorem edited_nil (start : Disk) (files : List Path) :
    start.edited files (fun _ => []) = start := by
  have untouched : start.edited files (fun _ => []) = start.revise fun _ leaf => leaf := by
    unfold Disk.edited
    congr 1
    funext location leaf
    split <;> rfl
  rw [untouched, Disk.revise_id]

@[simp] theorem draft?_nil (start : Disk) (files : List Path) (p : Path) :
    start.draft? files (fun _ => []) p = none := by
  unfold Disk.draft?
  cases files.find? (·.components = p.components) with
  | none => rfl
  | some q =>
    rw [Option.bind_some]
    cases (start.readText q).toOption <;> rfl

/-- One more rule on one file is a revision at the place of the file, if it has one. -/
theorem edited_add (charted : Charts start files place) (member : p ∈ files) :
    start.edited files (h.add [p] rule) =
      (start.edited files h).revise fun location leaf =>
        if (start.locate p).toOption = some location then rule.amend leaf else leaf := by
  rw [Disk.edited, Disk.edited, Disk.revise_revise]
  congr 1
  funext location leaf
  cases owned : start.owner? files location with
  | none =>
    have lost : ¬(start.locate p).toOption = some location := fun way => by
      have owner := (owner?_eq_some_iff charted).mpr ⟨member, toOption_eq_some_iff.mp way⟩
      rw [owned] at owner
      simp at owner
    rw [if_neg lost]
  | some q =>
    obtain ⟨member', way'⟩ := (owner?_eq_some_iff charted).mp owned
    -- Only one file can own the location, which is `p` if `p` leads there.
    by_cases way : (start.locate p).toOption = some location
    · have owner := (owner?_eq_some_iff charted).mpr ⟨member, toOption_eq_some_iff.mp way⟩
      obtain rfl : q = p := by rw [owned] at owner; simpa using owner
      rw [if_pos way]
      simp [History.add, Rule.amendAll]
    · have apart : q ∉ [p] := by
        simp only [List.mem_singleton]
        rintro rfl
        exact way (toOption_eq_some_iff.mpr way')
      simp only [if_neg way, History.add_of_not_mem apart]

theorem entryAt_edited (charted : Charts start files place) (member : p ∈ files)
    {location : Location} (way : start.locate p = .ok location) {content : Bytes} {revision : Nat}
    (standing : start.root.entryAt location = some (.file content revision)) :
    (start.edited files h).root.entryAt location =
      some (.file (Rule.amendAll (h p) ⟨content, revision⟩).content
        (Rule.amendAll (h p) ⟨content, revision⟩).revision) := by
  have owned := (owner?_eq_some_iff charted).mpr ⟨member, way⟩
  rw [Disk.edited, Disk.entryAt_revise, standing]
  simp [Entry.revise, owned]

/-- What stands behind a file's path is what the rules make of the file. -/
theorem entry_edited (charted : Charts start files place) (member : p ∈ files) :
    (start.edited files h).entry p =
      (start.entry p).map (Entry.revise (fun _ => Rule.amendAll (h p)) []) := by
  have revised : (start.edited files h).locate p = start.locate p := Disk.locate_revise _ _
  cases way : start.locate p with
  | error cause =>
    rw [Disk.entry_of_locate_error way, Disk.entry_of_locate_error (revised.trans way)]
    rfl
  | ok location =>
    obtain ⟨content, revision, standing⟩ := (charted.reaches p member).file
    rw [charted.place_of_locate member way] at standing
    rw [Disk.entry_of_locate way, Disk.entry_of_locate (revised.trans way), standing,
      entryAt_edited charted member way standing]
    rfl

theorem entry_edited_of_file (charted : Charts start files place) (member : p ∈ files)
    {content : Bytes} {revision : Nat} (standing : start.entry p = .ok (.file content revision)) :
    (start.edited files h).entry p =
      .ok (.file (Rule.amendAll (h p) ⟨content, revision⟩).content
        (Rule.amendAll (h p) ⟨content, revision⟩).revision) := by
  rw [entry_edited charted member, standing]
  rfl

/-- A file with a text holds the last text that was made of it, and was opened once for every rule
that matched. -/
theorem entry_edited_of_readText (charted : Charts start files place) (member : p ∈ files)
    (read : start.readText p = .ok t) :
    ∃ content revision, start.entry p = .ok (.file content revision) ∧
      (start.edited files h).entry p =
        .ok (.file (((Rule.draft? (h p) t).map Utf8.encode).getD content)
          (revision + Rule.hits (h p) t)) := by
  obtain ⟨content, revision, standing, decoded⟩ := Disk.readText_eq_ok_iff.mp read
  refine ⟨content, revision, standing, ?_⟩
  rw [entry_edited_of_file charted member standing, Rule.amendAll_eq decoded]

theorem readText_edited (charted : Charts start files place) (member : p ∈ files)
    (read : start.readText p = .ok t) :
    (start.edited files h).readText p = .ok (Rule.replaceAll (h p) t) := by
  obtain ⟨content, revision, standing, decoded⟩ := Disk.readText_eq_ok_iff.mp read
  exact Disk.readText_eq_ok_iff.mpr
    ⟨_, _, entry_edited_of_file charted member standing, Rule.decode?_amendAll decoded⟩

/-- No rule changes a file that cannot be read. -/
theorem entry_edited_of_unread (charted : Charts start files place) (member : p ∈ files)
    {cause : Refusal} (lost : start.readText p = .error cause) :
    (start.edited files h).entry p = start.entry p := by
  rcases (charted.reaches p member).entry with ⟨refusal, refused⟩ | ⟨content, revision, standing⟩
  · rw [entry_edited charted member, refused]
    rfl
  · have unread : Utf8.decode? content = none := by
      cases decoded : Utf8.decode? content with
      | none => rfl
      | some text =>
        rw [Disk.readText_eq_ok_iff.mpr ⟨content, revision, standing, decoded⟩] at lost
        cases lost
    rw [entry_edited_of_file charted member standing, Rule.amendAll_of_unread _ unread, standing]

theorem readText_edited_error (charted : Charts start files place) (member : p ∈ files)
    {cause : Refusal} (lost : start.readText p = .error cause) :
    (start.edited files h).readText p = .error cause :=
  (Disk.readText_congr (entry_edited_of_unread charted member lost)).trans lost

/-- A rule without an occurrence leaves the disk as it is. -/
theorem edited_add_of_count_eq_zero (sound : start.root.WellFormed)
    (charted : Charts start files place) (member : p ∈ files) (read : start.readText p = .ok t)
    (absent : rule.count (Rule.replaceAll (h p) t) = 0) :
    start.edited files (h.add [p] rule) = start.edited files h := by
  rw [edited_add charted member]
  refine Disk.revise_eq_self sound.revise fun location content revision standing => ?_
  by_cases way : (start.locate p).toOption = some location
  · obtain ⟨way', _, _, standing', decoded⟩ := (charted.reaches p member).of_readText read
    obtain rfl : place p = location := by rw [way'] at way; simpa [Except.toOption] using way
    have amended := entryAt_edited (h := h) charted member way' standing'
    simp only [standing, Option.some.injEq, Entry.file.injEq] at amended
    have decoded' : Utf8.decode? content = some (Rule.replaceAll (h p) t) := by
      rw [amended.1]
      exact Rule.decode?_amendAll decoded
    rw [if_pos way, Rule.amend_of_count_eq_zero decoded' absent]
  · rw [if_neg way]

/-- A path with the components of a file has its draft, which a rule with an occurrence renews. -/
theorem draft?_add_same (charted : Charts start files place) (member : p ∈ files)
    (read : start.readText p = .ok t) {q : Path} (same : p.components = q.components) :
    start.draft? files (h.add [p] rule) q =
      ((rule.replaceIn? (Rule.replaceAll (h p) t)).map (·.1)).or (start.draft? files h q) := by
  have owner : files.find? (·.components = q.components) = some p := by
    rw [← same]
    exact find?_components charted.ordered member
  simp [Disk.draft?, owner, read, Except.toOption, History.add_of_mem, Rule.draft?_append]

theorem draft?_add_other {q : Path} (apart : p.components ≠ q.components) :
    start.draft? files (h.add [p] rule) q = start.draft? files h q := by
  unfold Disk.draft?
  cases found : files.find? (·.components = q.components) with
  | none => rfl
  | some r =>
    have same : r.components = q.components := by simpa using List.find?_some found
    have other : r ∉ [p] := by
      simp only [List.mem_singleton]
      rintro rfl
      exact apart same
    simp only [Option.bind_some, History.add_of_not_mem other]

namespace Editor

theorem follows_discard (e : Editor) (w : Workspace) (files : List Path) :
    e.Follows w.disk files (fun _ => []) w.discard := by
  constructor
  · simp [Workspace.discard]
  · simp [Workspace.discard, Drafts.get?]

theorem Follows.untouched (follows : e.Follows start files (fun _ => []) w) :
    w.disk = start ∧ ∀ p, w.drafts.get? p = none := by
  obtain ⟨standing, drafted⟩ := follows
  simp only [edited_nil, draft?_nil, ite_self] at standing drafted
  exact ⟨standing, drafted⟩

theorem Follows.text (follows : e.Follows start files h w) (charted : Charts start files place)
    (member : p ∈ files) :
    w.text p = (start.readText p).map (Rule.replaceAll (h p)) := by
  have drafted := follows.drafts p
  have standing := follows.disk
  by_cases dry : e.dryRun = true
  · rw [if_pos dry] at drafted standing
    rw [draft?_of_mem charted.ordered member] at drafted
    rw [Workspace.text, drafted, standing]
    cases read : start.readText p with
    | error cause => simp [Except.toOption, Except.map]
    | ok text =>
      rw [Except.map, ← Rule.getD_draft?]
      cases made : Rule.draft? (h p) text <;> simp [Except.toOption, made]
  · rw [if_neg dry] at drafted standing
    rw [Workspace.text, drafted, standing]
    cases read : start.readText p with
    | error cause => exact readText_edited_error charted member read
    | ok text => exact readText_edited charted member read

end Editor

end

end Codemod
