import Codemod.Proofs.Editor.History

/-! What rules leave behind when they have gone over some files and no others: on the disk if they
are written, and in the drafts in a dry run. -/
namespace Codemod

/-- The same entries stand at the same locations, and only the files at touched locations may hold
other things or have been opened for writing. -/
structure Disk.AgreesOutside (touched : Location → Prop) (before after : Disk) : Prop where
  current : after.current = before.current
  absent : ∀ location, before.root.entryAt location = none → after.root.entryAt location = none
  link : ∀ location target, before.root.entryAt location = some (.link target) →
    after.root.entryAt location = some (.link target)
  folder : ∀ location entries, before.root.entryAt location = some (.folder entries) →
    ∃ entries', after.root.entryAt location = some (.folder entries') ∧
      entries'.names = entries.names
  file : ∀ location content revision,
    before.root.entryAt location = some (.file content revision) →
    ∃ content' revision', after.root.entryAt location = some (.file content' revision') ∧
      (¬touched location → content' = content ∧ revision' = revision)

/-- The rules have gone over exactly these files on the disk, in their order. -/
structure Disk.Amended (rules : List Rule) (among : Path → Prop) (before after : Disk) : Prop where
  others : before.AgreesOutside (fun location => ∃ p, among p ∧ before.locate p = .ok location) after
  composed : ∀ p text, among p → before.readText p = .ok text →
    after.readText p = .ok (Rule.replaceAll rules text)
  /-- A file is opened for writing if a rule matches in its turn, and else keeps its bytes. -/
  opened : ∀ p text, among p → before.readText p = .ok text →
    ∃ content revision times,
      before.entry p = .ok (.file content revision) ∧
      after.entry p = .ok (.file
        (if times = 0 then content else Utf8.encode (Rule.replaceAll rules text))
        (revision + times)) ∧
      (times ≠ 0 ↔ ∃ k, ∃ inside : k < rules.length,
        rules[k].Matches (Rule.replaceAll (rules.take k) text))

/-- The rules have gone over exactly these files in drafts: a file has the last text that a rule
made of it, if one did. -/
structure Drafts.Hold (drafts : Drafts) (rules : List Rule) (among : Path → Prop) (before : Disk) :
    Prop where
  made : ∀ p text, among p → before.readText p = .ok text →
    drafts.get? p = Rule.draft? rules text
  others : ∀ p, (∀ q, among q → q.components ≠ p.components) → drafts.get? p = none

/-- An editor has taken exactly these files through the rules. -/
structure Editor.Leaves (e : Editor) (rules : List Rule) (among : Path → Prop) (before : Disk)
    (after : Workspace) : Prop where
  real : e.dryRun = false →
    before.Amended rules among after.disk ∧ ∀ p, after.drafts.get? p = none
  dry : e.dryRun = true → after.disk = before ∧ after.drafts.Hold rules among before

section

open Scan

variable {before : Disk} {files : List Path} {place : Path → Location} {h : History}
  {rules : List Rule} {among : Path → Prop}

theorem Disk.agreesOutside_revise {touched : Location → Prop} {f : Location → Leaf → Leaf}
    (apart : ∀ location leaf, ¬touched location → f location leaf = leaf) :
    before.AgreesOutside touched (before.revise f) where
  current := rfl
  absent location missing := by rw [entryAt_revise, missing]; rfl
  link location target standing := by rw [entryAt_revise, standing]; rfl
  folder location entries standing := by
    refine ⟨entries.revise f location, ?_, Folder.names_revise entries⟩
    rw [entryAt_revise, standing]
    rfl
  file location content revision standing := by
    refine ⟨_, _, by rw [entryAt_revise, standing]; rfl, fun free => ?_⟩
    rw [apart location _ free]
    exact ⟨rfl, rfl⟩

theorem Disk.AgreesOutside.refl (touched : Location → Prop) (d : Disk) :
    d.AgreesOutside touched d where
  current := rfl
  absent _ missing := missing
  link _ _ standing := standing
  folder _ _ standing := ⟨_, standing, rfl⟩
  file _ _ _ standing := ⟨_, _, standing, fun _ => ⟨rfl, rfl⟩⟩

/-- Files that no rule has gone over are as they were. -/
theorem edited_agreesOutside (charted : Charts before files place)
    (off : ∀ p ∈ files, ¬among p → h p = []) :
    before.AgreesOutside (fun location => ∃ p, among p ∧ before.locate p = .ok location)
      (before.edited files h) := by
  refine Disk.agreesOutside_revise fun location leaf free => ?_
  cases owned : before.owner? files location with
  | none => rfl
  | some p =>
    obtain ⟨member, way⟩ := (owner?_eq_some_iff charted).mp owned
    have unused : ¬among p := fun used => free ⟨p, used, way⟩
    simp only [off p member unused]
    rfl

theorem edited_amended (charted : Charts before files place) (within : ∀ p, among p → p ∈ files)
    (on : ∀ p, among p → h p = rules) (off : ∀ p ∈ files, ¬among p → h p = []) :
    before.Amended rules among (before.edited files h) where
  others := edited_agreesOutside charted off
  composed p text used read := by
    rw [← on p used]
    exact readText_edited charted (within p used) read
  opened p text used read := by
    obtain ⟨content, revision, standing, amended⟩ :=
      entry_edited_of_readText (h := h) charted (within p used) read
    rw [on p used] at amended
    refine ⟨content, revision, Rule.hits rules text, standing, ?_, Rule.hits_ne_zero_iff⟩
    rw [amended, ← Rule.getD_draft?]
    cases made : Rule.draft? rules text with
    | none => simp [Rule.draft?_eq_none_iff.mp made]
    | some draft => simp [Rule.hits_ne_zero_of_draft? made]

theorem draft?_hold (ordered : files.Pairwise Path.Precedes) (within : ∀ p, among p → p ∈ files)
    (on : ∀ p, among p → h p = rules) (off : ∀ p ∈ files, ¬among p → h p = []) {drafts : Drafts}
    (drafted : ∀ p, drafts.get? p = before.draft? files h p) :
    drafts.Hold rules among before where
  made p text used read := by
    rw [drafted, draft?_of_mem ordered (within p used), read, on p used]
    rfl
  others p apart := by
    rw [drafted, Disk.draft?]
    cases found : files.find? (·.components = p.components) with
    | none => rfl
    | some q =>
      have same : q.components = p.components := by simpa using List.find?_some found
      have unused : ¬among q := fun used => apart q used same
      rw [Option.bind_some, off q (List.mem_of_find?_eq_some found) unused]
      cases (before.readText q).toOption <;> rfl

/-- However far an editor has come, it has touched no other files than these. -/
theorem Editor.Follows.agreesOutside {e : Editor} {after : Workspace}
    (follows : e.Follows before files h after) (charted : Charts before files place) :
    before.AgreesOutside (fun location => ∃ p, p ∈ files ∧ before.locate p = .ok location)
      after.disk := by
  rw [follows.disk]
  split
  · exact .refl _ before
  · exact edited_agreesOutside charted fun p member other => absurd member other

theorem Editor.Follows.leaves {e : Editor} {after : Workspace}
    (follows : e.Follows before files h after) (charted : Charts before files place)
    (within : ∀ p, among p → p ∈ files) (on : ∀ p, among p → h p = rules)
    (off : ∀ p ∈ files, ¬among p → h p = []) : e.Leaves rules among before after := by
  obtain ⟨standing, drafted⟩ := follows
  constructor
  · intro real
    simp only [real, Bool.false_eq_true, if_false] at standing drafted
    exact ⟨standing ▸ edited_amended charted within on off, drafted⟩
  · intro dry
    simp only [dry, if_true] at standing drafted
    exact ⟨standing, draft?_hold charted.ordered within on off drafted⟩

end

end Codemod
