import Codemod.Proofs.Editor.History

/-! One visit, and the visits of one rule. A visit of a readable file counts the occurrences in what
the rules before left, and adds the rule to the history of this file only; a visit of an unreadable
one fails and changes nothing. So the order of the visits has no part in what they come to. -/
namespace Codemod

/-- What a visit of a file gives under a history: the occurrences in what its rules left. -/
def Disk.visitResult (start : Disk) (h : History) (rule : Rule) (p : Path) : Except Fault Nat :=
  match start.readText p with
  | .ok text => .ok (rule.count (Rule.replaceAll (h p) text))
  | .error cause => .error (.access p cause)

def Disk.isReadable (start : Disk) (p : Path) : Bool := (start.readText p).toOption.isSome

theorem Disk.isReadable_iff {start : Disk} {p : Path} :
    start.isReadable p ↔ ∃ text, start.readText p = .ok text := by
  unfold isReadable
  cases start.readText p <;> simp [Except.toOption]

theorem Disk.not_isReadable_iff {start : Disk} {p : Path} :
    start.isReadable p = false ↔ ∃ cause, start.readText p = .error cause := by
  unfold isReadable
  cases start.readText p <;> simp [Except.toOption]

namespace Editor

open Scan

variable {e : Editor} {start : Disk} {files : List Path} {place : Path → Location} {h : History}
  {w : Workspace} {p : Path} {rule : Rule} {t : String}

/-- Without an occurrence the rule leaves no trace. -/
theorem Follows.add_of_count_eq_zero (follows : e.Follows start files h w)
    (sound : start.root.WellFormed) (charted : Charts start files place) (member : p ∈ files)
    (read : start.readText p = .ok t) (absent : rule.count (Rule.replaceAll (h p) t) = 0) :
    e.Follows start files (h.add [p] rule) w := by
  refine ⟨?_, fun q => ?_⟩
  · rw [edited_add_of_count_eq_zero sound charted member read absent]
    exact follows.disk
  · rw [follows.drafts q]
    by_cases same : p.components = q.components
    · rw [draft?_add_same charted member read same, Rule.replaceIn?_of_count_eq_zero absent,
        Option.map_none, Option.none_or]
    · rw [draft?_add_other same]

/-- The new text of a readable file is put where the mode says, and no other file is touched. -/
theorem Follows.store (follows : e.Follows start files h w) (sound : start.root.WellFormed)
    (charted : Charts start files place) (member : p ∈ files) (read : start.readText p = .ok t)
    (present : rule.count (Rule.replaceAll (h p) t) ≠ 0) :
    ∃ w', e.store p (rule.replaceIn (Rule.replaceAll (h p) t)) w = .ok w' ∧
      e.Follows start files (h.add [p] rule) w' := by
  have standing := follows.disk
  have drafted := follows.drafts
  by_cases dry : e.dryRun = true
  · rw [if_pos dry] at standing
    simp only [if_pos dry] at drafted
    refine ⟨{ w with drafts := w.drafts.put p (rule.replaceIn (Rule.replaceAll (h p) t)) },
      by rw [Editor.store, if_pos dry], by rw [if_pos dry]; exact standing, fun q => ?_⟩
    rw [if_pos dry]
    by_cases same : p.components = q.components
    · rw [draft?_add_same charted member read same, Rule.replaceIn?_of_count_ne_zero present,
        Option.map_some, Option.some_or, Drafts.get?, ← same, ← Drafts.get?, Drafts.get?_put_same]
    · rw [draft?_add_other same, Drafts.get?_put_other _ _ same, drafted q]
  · rw [if_neg dry] at standing
    simp only [if_neg dry] at drafted
    have reached := charted.reaches p member
    obtain ⟨way, content, revision, file, decoded⟩ := reached.of_readText read
    have file' := entryAt_edited (h := h) charted member way file
    have written := (reached.revise _).write sound.revise
      ((Disk.locate_revise _ _).trans way) file'
      (Utf8.encode (rule.replaceIn (Rule.replaceAll (h p) t)))
      (f := fun location leaf =>
        if (start.locate p).toOption = some location then rule.amend leaf else leaf)
      (by
        rw [if_pos (by simp [way, Except.toOption]),
          Rule.amend_of_count_ne_zero (Rule.decode?_amendAll decoded) present])
      (fun other leaf apart => by
        rw [if_neg]
        simpa [way, Except.toOption] using Ne.symm apart)
    rw [← Disk.edited, ← edited_add charted member] at written
    refine ⟨{ w with disk := start.edited files (h.add [p] rule) }, ?_, by rw [if_neg dry], ?_⟩
    · rw [Editor.store, if_neg dry, standing, written]
      rfl
    · intro q
      rw [if_neg dry]
      exact drafted q

theorem Follows.visit (follows : e.Follows start files h w) (sound : start.root.WellFormed)
    (charted : Charts start files place) (member : p ∈ files) (read : start.readText p = .ok t)
    (rule : Rule) :
    ∃ w', e.visit rule p w = (start.visitResult h rule p, w') ∧
      e.Follows start files (h.add [p] rule) w' := by
  have seen := follows.text charted member
  simp only [read, Except.map] at seen
  simp only [Editor.visit, seen, Disk.visitResult, read]
  by_cases absent : rule.count (Rule.replaceAll (h p) t) = 0
  · refine ⟨w, by simp [Rule.replaceIn?_of_count_eq_zero absent, absent], ?_⟩
    exact follows.add_of_count_eq_zero sound charted member read absent
  · obtain ⟨w', stored, after⟩ := follows.store sound charted member read absent
    exact ⟨w', by simp [Rule.replaceIn?_of_count_ne_zero absent, stored], after⟩

theorem Follows.visit_unreadable (follows : e.Follows start files h w)
    (charted : Charts start files place) (member : p ∈ files) {cause : Refusal}
    (lost : start.readText p = .error cause) :
    e.visit rule p w = (start.visitResult h rule p, w) := by
  have seen := follows.text charted member
  simp only [lost, Except.map] at seen
  simp only [Editor.visit, seen, Disk.visitResult, lost]

/-- What one file has been through has no part in the visits of others. -/
theorem visits_add {others : List Path} (apart : p ∉ others) :
    others.map (fun q => (⟨q, start.visitResult (h.add [p] rule) rule q⟩ : Visit)) =
      others.map fun q => ⟨q, start.visitResult h rule q⟩ := by
  refine List.map_congr_left fun q member => ?_
  have other : q ∉ [p] := by
    simp only [List.mem_singleton]
    rintro rfl
    exact apart member
  simp only [Disk.visitResult, History.add_of_not_mem other]

/-- Every file is visited once, in any order: all of the readable ones get the rule. -/
theorem Follows.visitAll {order : List Path} (follows : e.Follows start files h w)
    (sound : start.root.WellFormed) (charted : Charts start files place)
    (inside : ∀ p ∈ order, p ∈ files) (once : order.Nodup) (rule : Rule) :
    ∃ w', e.visitAll rule order w =
        (order.map fun p => ⟨p, start.visitResult h rule p⟩, w') ∧
      e.Follows start files (h.add (order.filter start.isReadable) rule) w' := by
  -- A file that has been visited does not come again, so the other visits do not see its history.
  induction order generalizing h w with
  | nil => exact ⟨w, rfl, by simpa using follows⟩
  | cons p rest ih =>
    have member := inside p (List.mem_cons_self ..)
    have inside' := fun q hq => inside q (List.mem_cons_of_mem _ hq)
    obtain ⟨apart, once'⟩ := List.nodup_cons.mp once
    cases read : start.readText p with
    | ok t =>
      obtain ⟨w₁, visited, follows₁⟩ := follows.visit sound charted member read rule
      obtain ⟨w₂, others, follows₂⟩ := ih follows₁ inside' once'
      refine ⟨w₂, ?_, ?_⟩
      · simp only [Editor.visitAll, visited, others, visits_add apart, List.map_cons]
      · rw [History.add_cons _ _ fun found => apart (List.mem_filter.mp found).1] at follows₂
        rwa [List.filter_cons_of_pos (Disk.isReadable_iff.mpr ⟨t, read⟩)]
    | error cause =>
      obtain ⟨w₁, others, follows₁⟩ := ih follows inside' once'
      refine ⟨w₁, ?_, ?_⟩
      · simp only [Editor.visitAll, follows.visit_unreadable charted member read, others,
          List.map_cons]
      · have unread := Disk.not_isReadable_iff.mpr ⟨cause, read⟩
        rwa [List.filter_cons_of_neg (by simp [unread])]

/-- Readable files in front are visited before the others, one after another. -/
theorem Follows.visitUntilFailure_append {front : List Path} (back : List Path)
    (follows : e.Follows start files h w) (sound : start.root.WellFormed)
    (charted : Charts start files place) (inside : ∀ p ∈ front, p ∈ files) (once : front.Nodup)
    (readable : ∀ p ∈ front, start.isReadable p) (rule : Rule) :
    ∃ w', e.visitUntilFailure rule (front ++ back) w =
        ((front.map fun p => ⟨p, start.visitResult h rule p⟩) ++
          (e.visitUntilFailure rule back w').1, (e.visitUntilFailure rule back w').2) ∧
      e.Follows start files (h.add front rule) w' := by
  induction front generalizing h w with
  | nil => exact ⟨w, rfl, by simpa using follows⟩
  | cons p rest ih =>
    have member := inside p (List.mem_cons_self ..)
    obtain ⟨apart, once'⟩ := List.nodup_cons.mp once
    obtain ⟨t, read⟩ := Disk.isReadable_iff.mp (readable p (List.mem_cons_self ..))
    obtain ⟨w₁, visited, follows₁⟩ := follows.visit sound charted member read rule
    obtain ⟨w₂, others, follows₂⟩ := ih follows₁ (fun q hq => inside q (List.mem_cons_of_mem _ hq))
      once' (fun q hq => readable q (List.mem_cons_of_mem _ hq))
    refine ⟨w₂, ?_, by rwa [History.add_cons _ _ apart] at follows₂⟩
    have result : start.visitResult h rule p = .ok (rule.count (Rule.replaceAll (h p) t)) := by
      simp [Disk.visitResult, read]
    simp only [List.cons_append, Editor.visitUntilFailure, visited, result, others,
      visits_add apart, List.map_cons]

/-- The first unreadable file is the last that is visited. -/
theorem Follows.visitUntilFailure_unreadable (back : List Path)
    (follows : e.Follows start files h w) (charted : Charts start files place) (member : p ∈ files)
    {cause : Refusal} (lost : start.readText p = .error cause) :
    e.visitUntilFailure rule (p :: back) w = ([⟨p, start.visitResult h rule p⟩], w) := by
  have result : start.visitResult h rule p = .error (.access p cause) := by
    simp [Disk.visitResult, lost]
  simp [Editor.visitUntilFailure, follows.visit_unreadable charted member lost, result]

end Editor

end Codemod
