import Codemod.Editor.Basic
import Codemod.Proofs.Rule.Occurrence
import Codemod.Proofs.Scan.Chart
import Mathlib.Data.List.Nodup

/-! What a workspace knows of one file, in two stores: a draft, which is read first, and the disk. A
rule that goes over the file renews one of them and leaves the other as it is. Nothing is assumed of
the drafts, so the two stores need not agree, and a pass that succeeds is described file by file. -/
namespace Codemod

structure View where
  draft : Option String
  stored : Except Refusal String

namespace View

def text (v : View) : Except Refusal String :=
  match v.draft with
  | some draft => .ok draft
  | none => v.stored

/-- A visit puts the new text, if there is one, where the mode says. -/
def after (v : View) (dryRun : Bool) (rule : Rule) : View :=
  match v.text with
  | .error _ => v
  | .ok text =>
    match rule.replaceIn? text with
    | none => v
    | some (updated, _) =>
      if dryRun then { v with draft := some updated } else { v with stored := .ok updated }

variable {v : View} {dryRun : Bool} {rule : Rule} {t updated : String} {count : Nat}

theorem after_of_absent (read : v.text = .ok t) (absent : rule.replaceIn? t = none) :
    v.after dryRun rule = v := by
  simp [after, read, absent]

theorem after_of_replaced (read : v.text = .ok t)
    (replaced : rule.replaceIn? t = some (updated, count)) :
    v.after dryRun rule =
      if dryRun then { v with draft := some updated } else { v with stored := .ok updated } := by
  simp [after, read, replaced]

/-- A visit for good leaves the draft as it is. -/
@[simp] theorem draft_after_real (v : View) (rule : Rule) :
    (v.after false rule).draft = v.draft := by
  cases read : v.text with
  | error cause => simp only [after, read]
  | ok t =>
    cases replaced : rule.replaceIn? t with
    | none => rw [after_of_absent read replaced]
    | some result => rw [after_of_replaced read replaced, if_neg (by simp)]

theorem text_of_draft {draft : String} (drafted : v.draft = some draft) : v.text = .ok draft := by
  rw [text, drafted]

theorem stored_after_real (read : v.text = .ok t) (present : rule.count t ≠ 0) :
    (v.after false rule).stored = .ok (rule.replaceIn t) := by
  rw [after_of_replaced read (Rule.replaceIn?_of_count_ne_zero present), if_neg (by simp)]

/-- The new text is what is read afterwards, unless it is put behind a draft. -/
theorem text_after (read : v.text = .ok t) (rule : Rule)
    (seen : dryRun = true ∨ v.draft = none) :
    (v.after dryRun rule).text = .ok (rule.replaceIn t) := by
  by_cases absent : rule.count t = 0
  · rw [after_of_absent read (Rule.replaceIn?_of_count_eq_zero absent), read,
      Rule.replaceIn_of_count_eq_zero absent]
  · cases dryRun with
    | true =>
      rw [after_of_replaced read (Rule.replaceIn?_of_count_ne_zero absent), if_pos rfl, text]
    | false =>
      have bare : v.draft = none := by simpa using seen
      rw [text, draft_after_real, bare, stored_after_real read absent]

end View

def Workspace.view (w : Workspace) (p : Path) : View := ⟨w.drafts.get? p, w.disk.readText p⟩

theorem Workspace.text_view (w : Workspace) (p : Path) : (w.view p).text = w.text p := rfl

theorem Pass.forall_mem_of_settle {t u : Tally} {results : List (Except Fault Nat)}
    (settled : settle t results = .ok u) : ∀ result ∈ results, ∃ count, result = .ok count := by
  induction results generalizing t with
  | nil => simp
  | cons first rest ih =>
    cases first with
    | error fault => simp [settle] at settled
    | ok count => exact List.forall_mem_cons.mpr ⟨⟨count, rfl⟩, ih settled⟩

/-- A rule whose outcome is a tally has failed at no file it was applied to. -/
theorem Pass.forall_mem_of_outcome {pass : Pass} {files : List Path} {t : Tally}
    (walked : pass.files = .ok files) (fine : pass.outcome = .ok t)
    (once : (pass.visits.map Visit.path).Nodup) (inside : pass.visits.map Visit.path ⊆ files) :
    ∀ v ∈ pass.visits, ∃ count, v.result = .ok count := by
  intro v visited
  have found : pass.visits.find? (·.path = v.path) = some v := by
    cases found : pass.visits.find? (·.path = v.path) with
    | none => simpa using List.find?_eq_none.mp found v visited
    | some other =>
      have same : other.path = v.path := by simpa using List.find?_some found
      rw [List.inj_on_of_nodup_map once (List.mem_of_find?_eq_some found) visited same]
  rw [outcome, walked] at fine
  exact forall_mem_of_settle fine v.result <| List.mem_filterMap.mpr
    ⟨v.path, inside (List.mem_map_of_mem visited), by rw [found, Option.map_some]⟩

namespace Editor

open Scan

/-- The rule has gone over some of the files, and each of them could be read. -/
structure Advances (dryRun : Bool) (rule : Rule) (files gone : List Path)
    (before after : Workspace) : Prop where
  disk : ∃ f, after.disk = before.disk.revise f
  readable : ∀ p ∈ gone, ∃ text, before.text p = .ok text
  view : ∀ p ∈ files, after.view p =
    if p ∈ gone then (before.view p).after dryRun rule else before.view p

variable {e : Editor} {dryRun : Bool} {rule : Rule} {files : List Path} {place : Path → Location}
  {p : Path} {w w₁ w' : Workspace}

theorem advances_nil (dryRun : Bool) (rule : Rule) (files : List Path) (w : Workspace) :
    Advances dryRun rule files [] w w :=
  ⟨⟨_, w.disk.revise_id.symm⟩, by simp, by simp⟩

/-- A file that has been gone over does not come again, so the others are met as they were. -/
theorem Advances.cons {rest : List Path} (first : Advances dryRun rule files [p] w w₁)
    (others : Advances dryRun rule files rest w₁ w') (apart : p ∉ rest)
    (inside : ∀ q ∈ rest, q ∈ files) : Advances dryRun rule files (p :: rest) w w' := by
  have kept {q : Path} (later : q ∈ rest) : w₁.view q = w.view q := by
    rw [first.view q (inside q later), if_neg]
    rintro same
    exact apart (List.mem_singleton.mp same ▸ later)
  obtain ⟨f, revised⟩ := first.disk
  obtain ⟨g, revised'⟩ := others.disk
  refine ⟨⟨_, by rw [revised', revised, Disk.revise_revise]⟩, ?_, ?_⟩
  · intro q gone
    rcases List.mem_cons.mp gone with rfl | later
    · exact first.readable q (by simp)
    · obtain ⟨text, read⟩ := others.readable q later
      exact ⟨text, by rw [← Workspace.text_view, ← kept later, Workspace.text_view, read]⟩
  · intro q member
    rw [others.view q member]
    by_cases later : q ∈ rest
    · simp [later, kept later]
    · simp [later, first.view q member]

theorem advances_single (revised : ∃ f, w'.disk = w.disk.revise f) {t : String}
    (read : w.text p = .ok t) (here : w'.view p = (w.view p).after dryRun rule)
    (others : ∀ q ∈ files, q ≠ p → w'.view q = w.view q) : Advances dryRun rule files [p] w w' := by
  refine ⟨revised, by simp [read], ?_⟩
  intro q member
  by_cases same : q = p
  · subst same
    rw [if_pos (by simp), here]
  · rw [if_neg (by simpa using same), others q member same]

/-- A draft belongs to one file, whatever the spelling of its path. -/
theorem view_draft_other (ordered : files.Pairwise Path.Precedes) (member : p ∈ files) {q : Path}
    (member' : q ∈ files) (apart : q ≠ p) (updated : String) :
    Workspace.view { w with drafts := w.drafts.put p updated } q = w.view q := by
  have different : p.components ≠ q.components := fun alike =>
    apart (components_injective ordered member' member alike.symm)
  rw [Workspace.view, Drafts.get?_put_other _ _ different, Workspace.view]

/-- The new text is put where the mode says, and no other file is touched. -/
theorem advances_store (charted : Charts w.disk files place) (sound : w.disk.root.WellFormed)
    (member : p ∈ files) {t updated : String} {count : Nat} (read : w.text p = .ok t)
    (replaced : rule.replaceIn? t = some (updated, count))
    (stored : e.store p updated w = .ok w') : Advances e.dryRun rule files [p] w w' := by
  have renewed : (w.view p).after e.dryRun rule = _ := View.after_of_replaced read replaced
  by_cases dry : e.dryRun = true
  · simp only [store, if_pos dry, Except.ok.injEq] at stored
    subst stored
    refine advances_single ⟨_, w.disk.revise_id.symm⟩ read ?_ ?_
    · rw [renewed, if_pos dry, Workspace.view, Drafts.get?_put_same]
      rfl
    · intro q member' apart
      exact view_draft_other charted.ordered member member' apart updated
  · simp only [store, if_neg dry] at stored
    cases written : w.disk.write p (Utf8.encode updated) with
    | error cause => simp [written, Except.map] at stored
    | ok disk =>
      simp only [written, Except.map, Except.ok.injEq] at stored
      subst stored
      have reached := charted.reaches p member
      obtain ⟨found, rfl⟩ := reached.eq_revise_of_write sound written
      refine advances_single ⟨_, rfl⟩ read ?_ ?_
      · rw [renewed, if_neg dry, Workspace.view, reached.readText_overwriting found]
        rfl
      · intro q member' apart
        have elsewhere : place q ≠ place p := fun alike =>
          apart (charted.place_injective q member' p member alike)
        rw [Workspace.view, (charted.reaches q member').readText_overwriting_other elsewhere,
          Workspace.view]

theorem advances_visit (charted : Charts w.disk files place) (sound : w.disk.root.WellFormed)
    (member : p ∈ files) {count : Nat} (visited : e.visit rule p w = (.ok count, w')) :
    Advances e.dryRun rule files [p] w w' := by
  cases read : w.text p with
  | error cause => simp [visit, read] at visited
  | ok t =>
    cases replaced : rule.replaceIn? t with
    | none =>
      simp only [visit, read, replaced, Prod.mk.injEq] at visited
      obtain ⟨_, rfl⟩ := visited
      exact advances_single ⟨_, w.disk.revise_id.symm⟩ read
        (View.after_of_absent (v := w.view p) read replaced).symm fun _ _ _ => rfl
    | some result =>
      obtain ⟨updated, n⟩ := result
      cases stored : e.store p updated w with
      | error cause => simp [visit, read, replaced, stored] at visited
      | ok w'' =>
        simp only [visit, read, replaced, stored, Prod.mk.injEq] at visited
        obtain ⟨_, rfl⟩ := visited
        exact advances_store charted sound member read replaced stored

/-- Visits that all succeed go over all files, in any order. -/
theorem advances_visitAll {order : List Path} (charted : Charts w.disk files place)
    (sound : w.disk.root.WellFormed) (inside : ∀ p ∈ order, p ∈ files) (once : order.Nodup)
    (fine : ∀ v ∈ (e.visitAll rule order w).1, ∃ count, v.result = .ok count) :
    Advances e.dryRun rule files order w (e.visitAll rule order w).2 := by
  -- The visit of the first file revises the disk, where the chart of the files still holds.
  induction order generalizing w with
  | nil => exact advances_nil e.dryRun rule files w
  | cons p rest ih =>
    obtain ⟨apart, once'⟩ := List.nodup_cons.mp once
    obtain ⟨count, ok⟩ := fine _ (List.mem_cons_self ..)
    have first : Advances e.dryRun rule files [p] w (e.visit rule p w).2 :=
      advances_visit charted sound (inside p (List.mem_cons_self ..)) (Prod.ext ok rfl)
    obtain ⟨f, revised⟩ := first.disk
    have inside' : ∀ q ∈ rest, q ∈ files := by
      intro q later
      exact inside q (List.mem_cons_of_mem _ later)
    refine first.cons (ih ?_ ?_ inside' once' ?_) apart inside'
    · rw [revised]
      exact charted.revise f
    · rw [revised]
      exact sound.revise
    · intro v later
      exact fine v (List.mem_cons_of_mem _ later)

/-- Where no visit fails, the visits do not end early. -/
theorem visitUntilFailure_eq_visitAll {order : List Path}
    (fine : ∀ v ∈ (e.visitUntilFailure rule order w).1, ∃ count, v.result = .ok count) :
    e.visitUntilFailure rule order w = e.visitAll rule order w := by
  induction order generalizing w with
  | nil => rfl
  | cons p rest ih =>
    simp only [visitUntilFailure] at fine ⊢
    cases here : (e.visit rule p w).1 with
    | error fault => simp [here] at fine
    | ok count =>
      simp only [here, List.mem_cons, forall_eq_or_imp] at fine ⊢
      rw [visitAll, ih fine.2, here]

theorem path_visitAll (order : List Path) (w : Workspace) :
    (e.visitAll rule order w).1.map Visit.path = order := by
  induction order generalizing w with
  | nil => rfl
  | cons p rest ih => simp [visitAll, ih]

theorem path_visitUntilFailure (order : List Path) (w : Workspace) :
    ((e.visitUntilFailure rule order w).1.map Visit.path) <+: order := by
  induction order generalizing w with
  | nil => exact List.prefix_refl _
  | cons p rest ih =>
    simp only [visitUntilFailure]
    split
    · simp
    · simpa [List.prefix_cons_inj] using ih _

/-- A rule that is applied without failure has gone over every collected file. -/
theorem advances_apply {tally : Tally} (sound : w.disk.root.WellFormed)
    {order : List Path → List Path} (permutes : ∀ files, (order files).Perm files)
    {extensions : List String} (applied : e.apply order rule extensions w = (.ok tally, w')) :
    ∃ files, Scan.collect w.disk (e.search extensions) = .ok files ∧
      Advances e.dryRun rule files files w w' := by
  cases collected : Scan.collect w.disk (e.search extensions) with
  | error fault => simp [apply, pass, collected, Pass.outcome] at applied
  | ok files =>
    obtain ⟨place, charted⟩ := exists_charts sound collected
    have once := nodup_of_ordered charted.ordered
    refine ⟨files, rfl, ?_⟩
    simp only [apply, pass, collected, Prod.mk.injEq] at applied
    obtain ⟨outcome, rfl⟩ := applied
    by_cases parallel : e.parallel = true
    · rw [if_pos parallel] at outcome ⊢
      have perm := permutes files
      have once' := perm.nodup_iff.mpr once
      have fine := Pass.forall_mem_of_outcome rfl outcome
        (by simpa only [path_visitAll] using once')
        (by simpa only [path_visitAll] using perm.subset)
      have all := advances_visitAll charted sound (fun p => perm.mem_iff.mp) once' fine
      exact ⟨all.disk, by simpa [perm.mem_iff] using all.readable,
        by simpa [perm.mem_iff] using all.view⟩
    · rw [if_neg parallel] at outcome ⊢
      have front : (e.visitUntilFailure rule files w).1.map Visit.path <+: files :=
        path_visitUntilFailure files w
      have fine := Pass.forall_mem_of_outcome rfl outcome (front.sublist.nodup once) front.subset
      have whole := visitUntilFailure_eq_visitAll fine
      rw [whole] at fine ⊢
      exact advances_visitAll charted sound (fun p => id) once fine

end Editor

end Codemod
