import Codemod.Proofs.Editor.View
import Codemod.Proofs.Rule.Series

/-! Rules applied one after another with one editor, whose mode may change between them. Every rule
finds a file as the rules before left it, unless it is applied for good to a file that has a draft:
then the new text goes to the disk, and the draft in front of it is still what is read. -/
namespace Codemod

/-- One application of a rule: in which mode, to which files, and in which order they may be gone
over. -/
structure Call where
  dryRun : Bool
  rule : Rule
  extensions : List String
  order : List Path → List Path
  permutes : ∀ files, (order files).Perm files

/-- The text a file comes to if no visit for good follows one that may have left a draft. -/
theorem View.text_foldl_after {v : View} {t : String} {calls : List Call}
    (steady : calls.Pairwise fun c later => c.dryRun → later.dryRun)
    (seen : (∀ c ∈ calls, c.dryRun) ∨ v.draft = none) (read : v.text = .ok t) :
    (calls.foldl (fun v c => v.after c.dryRun c.rule) v).text =
      .ok (Rule.replaceAll (calls.map Call.rule) t) := by
  induction calls generalizing v t with
  | nil => exact read
  | cons c calls ih =>
    obtain ⟨before, steady'⟩ := List.pairwise_cons.mp steady
    rw [List.foldl_cons, List.map_cons, Rule.replaceAll_cons]
    cases mode : c.dryRun with
    | true =>
      exact ih steady' (Or.inl fun later member => before later member mode)
        (text_after read c.rule (Or.inl rfl))
    | false =>
      have bare : v.draft = none := by simpa [mode] using seen
      exact ih steady' (Or.inr (by rw [draft_after_real, bare]))
        (text_after read c.rule (Or.inr bare))

namespace Editor

def perform (e : Editor) (c : Call) (w : Workspace) : Except Fault Tally × Workspace :=
  { e with dryRun := c.dryRun }.apply c.order c.rule c.extensions w

/-- The calls lead from one workspace to another, and none of them fails. -/
inductive Succeeds (e : Editor) : List Call → Workspace → Workspace → Prop
  | nil (w : Workspace) : e.Succeeds [] w w
  | cons {c : Call} {calls : List Call} {w w₁ w' : Workspace} {tally : Tally}
      (performed : e.perform c w = (.ok tally, w₁)) (later : e.Succeeds calls w₁ w') :
      e.Succeeds (c :: calls) w w'

/-- The file is among those that a call is about. -/
def Collects (e : Editor) (c : Call) (d : Disk) (p : Path) : Prop :=
  ∃ files, Scan.collect d (e.search c.extensions) = .ok files ∧ p ∈ files

variable {e : Editor} {p : Path} {w w₁ w' : Workspace} {c : Call} {calls : List Call}
  {tally : Tally}

theorem advances_perform (sound : w.disk.root.WellFormed)
    (performed : e.perform c w = (.ok tally, w')) :
    ∃ files, Scan.collect w.disk (e.search c.extensions) = .ok files ∧
      Advances c.dryRun c.rule files files w w' :=
  advances_apply (e := { e with dryRun := c.dryRun }) sound c.permutes performed

/-- A call that succeeds can read every file it is about, and goes over it once. -/
theorem view_perform (sound : w.disk.root.WellFormed) (performed : e.perform c w = (.ok tally, w'))
    (met : e.Collects c w.disk p) :
    (∃ t, w.text p = .ok t) ∧ w'.view p = (w.view p).after c.dryRun c.rule := by
  obtain ⟨files, collected, advanced⟩ := advances_perform sound performed
  obtain ⟨_, collected', member⟩ := met
  rw [collected, Except.ok.injEq] at collected'
  subst collected'
  exact ⟨advanced.readable p member, by rw [advanced.view p member, if_pos member]⟩

/-- A call leaves the names on the disk, so that every later call collects what it would have
collected before. -/
theorem collects_revise {d : Disk} {f : Location → Leaf → Leaf} :
    e.Collects c (d.revise f) p ↔ e.Collects c d p := by
  unfold Collects
  rw [Scan.collect_revise]

theorem Succeeds.concat (earlier : e.Succeeds calls w w₁)
    (performed : e.perform c w₁ = (.ok tally, w')) : e.Succeeds (calls ++ [c]) w w' := by
  induction earlier with
  | nil w => exact .cons performed (.nil _)
  | cons first _ ih => exact .cons first (ih performed)

theorem Succeeds.disk (ran : e.Succeeds calls w w') (sound : w.disk.root.WellFormed) :
    ∃ f, w'.disk = w.disk.revise f := by
  induction ran with
  | nil w => exact ⟨_, w.disk.revise_id.symm⟩
  | cons performed _ ih =>
    obtain ⟨_, _, advanced⟩ := advances_perform sound performed
    obtain ⟨f, revised⟩ := advanced.disk
    obtain ⟨g, revised'⟩ := ih (revised ▸ sound.revise)
    exact ⟨_, by rw [revised', revised, Disk.revise_revise]⟩

theorem Succeeds.wellFormed (ran : e.Succeeds calls w w') (sound : w.disk.root.WellFormed) :
    w'.disk.root.WellFormed := by
  obtain ⟨f, revised⟩ := ran.disk sound
  exact revised ▸ sound.revise

/-- What calls leave of a file is what they would leave of it alone. -/
theorem Succeeds.view (ran : e.Succeeds calls w w') (sound : w.disk.root.WellFormed)
    (everywhere : ∀ c ∈ calls, e.Collects c w.disk p) :
    w'.view p = calls.foldl (fun v c => v.after c.dryRun c.rule) (w.view p) := by
  induction ran with
  | nil w => rfl
  | cons performed _ ih =>
    obtain ⟨here, later⟩ := List.forall_mem_cons.mp everywhere
    obtain ⟨_, _, advanced⟩ := advances_perform sound performed
    obtain ⟨f, revised⟩ := advanced.disk
    rw [List.foldl_cons, ← (view_perform sound performed here).2]
    apply ih (revised ▸ sound.revise)
    intro c' called
    rw [revised, collects_revise]
    exact later c' called

/-- The texts of a file over a series of calls that write no file for good behind a draft. -/
theorem Succeeds.text (ran : e.Succeeds calls w w') (sound : w.disk.root.WellFormed)
    (everywhere : ∀ c ∈ calls, e.Collects c w.disk p) (some_call : calls ≠ [])
    (steady : calls.Pairwise fun c later => c.dryRun → later.dryRun)
    (seen : (∀ c ∈ calls, c.dryRun) ∨ w.drafts.get? p = none) :
    ∃ t, w.text p = .ok t ∧ w'.text p = .ok (Rule.replaceAll (calls.map Call.rule) t) := by
  obtain ⟨c, rest, rfl⟩ := List.exists_cons_of_ne_nil some_call
  obtain ⟨t, read⟩ : ∃ t, w.text p = .ok t := by
    cases ran with
    | cons performed _ => exact (view_perform sound performed (everywhere c (by simp))).1
  refine ⟨t, read, ?_⟩
  rw [← Workspace.text_view, ran.view sound everywhere]
  exact View.text_foldl_after steady seen read

/-- A call after others gives every file it collects the text that its rule makes of the text so
far, and a series of calls the text that their rules make one after another. The one exception is a
file with a draft in a call for good: the draft is still there and is what is read, and only the
disk has the new text. -/
theorem succeeds_text {start before after : Workspace} (sound : start.disk.root.WellFormed)
    (earlier : e.Succeeds calls start before)
    (performed : e.perform c before = (.ok tally, after)) :
    ∃ files, Scan.collect before.disk (e.search c.extensions) = .ok files ∧
      ∀ p ∈ files, ∃ t, before.text p = .ok t ∧
        (c.dryRun = true ∨ before.drafts.get? p = none →
          after.text p = .ok (c.rule.replaceIn t)) ∧
        (c.dryRun = false → before.drafts.get? p ≠ none →
          after.drafts.get? p = some t ∧ after.text p = .ok t ∧
          (c.rule.Matches t → after.disk.readText p = .ok (c.rule.replaceIn t))) ∧
        ((∀ c' ∈ calls, e.Collects c' start.disk p) →
          (calls ++ [c]).Pairwise (fun c' later => c'.dryRun → later.dryRun) →
          (∀ c' ∈ calls ++ [c], c'.dryRun) ∨ start.drafts.get? p = none →
          ∃ t₀, start.text p = .ok t₀ ∧
            after.text p = .ok (Rule.replaceAll ((calls ++ [c]).map Call.rule) t₀)) := by
  have sound' := earlier.wellFormed sound
  obtain ⟨files, collected, _⟩ := advances_perform sound' performed
  refine ⟨files, collected, ?_⟩
  intro p member
  obtain ⟨⟨t, read⟩, step⟩ := view_perform sound' performed ⟨files, collected, member⟩
  rw [← Workspace.text_view] at read
  refine ⟨t, read, ?_, ?_, ?_⟩
  · intro seen
    rw [← Workspace.text_view, step]
    exact View.text_after read c.rule seen
  · intro real drafted
    rw [real] at step
    obtain ⟨draft, stands⟩ := Option.ne_none_iff_exists'.mp drafted
    have same : draft = t := by
      have text := View.text_of_draft (v := before.view p) stands
      rw [read, Except.ok.injEq] at text
      exact text.symm
    have kept : (after.view p).draft = some t := by
      rw [step, View.draft_after_real, ← same]
      exact stands
    refine ⟨kept, View.text_of_draft kept, ?_⟩
    intro found
    have stored := View.stored_after_real read ((Rule.count_ne_zero_iff ..).mpr found)
    rwa [← step] at stored
  · intro everywhere steady seen
    obtain ⟨f, revised⟩ := earlier.disk sound
    rw [revised] at collected
    have met : e.Collects c start.disk p := collects_revise.mp ⟨files, collected, member⟩
    have all_met : ∀ c' ∈ calls ++ [c], e.Collects c' start.disk p := by
      simpa [or_imp, forall_and, met] using everywhere
    apply (earlier.concat performed).text sound all_met (by simp) steady seen

def chainedEditor : Editor := ⟨[Path.slash], [], false, true⟩

/-- A file with a text that two rules can change apart from each other. -/
def chainedText : Workspace := ⟨⟨.file (Path.ofText "x.md") (Utf8.encode "ax") 1 .empty, []⟩, []⟩

/-- A call that goes over the files backwards. -/
def chainedCall (dryRun : Bool) (rule : Rule) : Call :=
  ⟨dryRun, rule, ["md"], List.reverse, fun files => files.reverse_perm⟩

theorem succeeds_text_chained :
    ∃ before after tally,
      chainedEditor.Succeeds [chainedCall false ⟨"a", "b"⟩, chainedCall true ⟨"x", "y"⟩] chainedText
        before ∧
      chainedEditor.perform (chainedCall true ⟨"b", "c"⟩) before = (.ok tally, after) ∧
      after.text (Path.ofText "/x.md") = .ok "cy" ∧
      after.disk.readText (Path.ofText "/x.md") = .ok "bx" := by
  obtain ⟨before, after, tally, earlier, performed, walked, written⟩ : ∃ before after tally,
      chainedEditor.Succeeds [chainedCall false ⟨"a", "b"⟩, chainedCall true ⟨"x", "y"⟩] chainedText
        before ∧
      chainedEditor.perform (chainedCall true ⟨"b", "c"⟩) before = (.ok tally, after) ∧
      Scan.collect before.disk (chainedEditor.search ["md"]) = .ok [Path.ofText "/x.md"] ∧
      after.disk.readText (Path.ofText "/x.md") = .ok "bx" :=
    ⟨_, _, _, .cons rfl (.cons rfl (.nil _)), rfl, rfl, rfl⟩
  obtain ⟨files, collected, law⟩ := succeeds_text (by decide +kernel) earlier performed
  obtain rfl : files = [Path.ofText "/x.md"] := Except.ok.inj (collected.symm.trans walked)
  obtain ⟨_, _, _, _, whole⟩ := law _ (List.mem_singleton.mpr rfl)
  have met : ∀ c ∈ [chainedCall false ⟨"a", "b"⟩, chainedCall true ⟨"x", "y"⟩],
      chainedEditor.Collects c chainedText.disk (Path.ofText "/x.md") := by
    simp only [List.forall_mem_cons]
    exact ⟨⟨_, rfl, by decide +kernel⟩, ⟨_, rfl, by decide +kernel⟩, by simp⟩
  obtain ⟨t, read, text⟩ := whole met (by decide) (Or.inr rfl)
  obtain rfl : t = "ax" := Except.ok.inj (read.symm.trans rfl)
  exact ⟨before, after, tally, earlier, performed, text, written⟩

/-- A rule that is applied for good after a dry run writes its text behind the draft, where no later
rule finds it, and the next rule writes over it. -/
theorem replacement_lost :
    ∃ drafted written final,
      chainedEditor.Succeeds [chainedCall true ⟨"a", "b"⟩] chainedText drafted ∧
      chainedEditor.Succeeds [chainedCall false ⟨"x", "y"⟩] drafted written ∧
      chainedEditor.Succeeds [chainedCall false ⟨"b", "c"⟩] written final ∧
      drafted.text (Path.ofText "/x.md") = .ok "bx" ∧
      Rule.replaceIn ⟨"x", "y"⟩ "bx" = "by" ∧
      written.text (Path.ofText "/x.md") = .ok "bx" ∧
      written.disk.readText (Path.ofText "/x.md") = .ok "by" ∧
      final.text (Path.ofText "/x.md") = .ok "bx" ∧
      final.disk.readText (Path.ofText "/x.md") = .ok "cx" :=
  ⟨_, _, _, .cons rfl (.nil _), .cons rfl (.nil _), .cons rfl (.nil _), rfl, by decide +kernel, rfl,
    rfl, rfl, rfl⟩

end Editor

end Codemod
