import Codemod.Proofs.Rulebook.Validity
import Codemod.Proofs.Settings.Loading

/-! Resolving settings that were loaded. Rules without a pattern are found on loading, so that on
resolving only extensions can be missing, or a preset. -/
namespace Codemod.Settings

variable {d : Disk} {source : Source} {environment : List (String × String)} {s : Settings}
  {fault : Fault}

/-- What can still be wrong with settings when they are resolved. -/
inductive Refused : Fault → Prop where
  | noExtensions : Refused (.configuration .noExtensions)
  | unknownPreset (name : String) : Refused (.configuration (.unknownPreset name))

theorem refused_of_build {rules : List Rule} {extensions : List String}
    (patterns : ∀ r ∈ rules, r.pattern ≠ "")
    (failed : Rulebook.build rules extensions = .error fault) : Refused fault := by
  rw [Rulebook.build_of_patterns patterns] at failed
  split at failed
  · obtain rfl := Except.error.inj failed
    exact .noExtensions
  · cases failed

theorem elmDomRules_patterns : ∀ r ∈ Preset.elmDomRules, r.pattern ≠ "" := by
  decide +kernel

theorem refused_of_find {name : String}
    (failed : Preset.find name = .error fault) : Refused fault := by
  rw [Preset.find] at failed
  split at failed
  · exact refused_of_build elmDomRules_patterns failed
  · obtain rfl := Except.error.inj failed
    exact .unknownPreset name

theorem refused_of_rulebook (patterns : ∀ r ∈ s.rules, r.pattern ≠ "")
    (failed : s.rulebook = .error fault) : Refused fault := by
  rw [rulebook] at failed
  split at failed
  · exact refused_of_find failed
  · cases found : Preset.find (s.preset.getD Preset.default) with
    | error cause =>
      rw [found] at failed
      obtain rfl := Except.error.inj failed
      exact refused_of_find found
    | ok book =>
      rw [found] at failed
      have same := Rulebook.rules_of_build (Preset.build_of_find found)
      exact refused_of_build (same ▸ elmDomRules_patterns) failed
  · obtain rfl := Except.error.inj failed
    exact .noExtensions
  · next rules extensions =>
    exact refused_of_build (rules ▸ patterns) failed

theorem patterns_of_check (checked : s.check = .ok ()) : ∀ r ∈ s.rules, r.pattern ≠ "" := by
  rw [← Rulebook.findIdx?_eq_none_iff]
  cases leveled : Log.Level.parse s.logging.level with
  | error fault =>
    rw [check, leveled] at checked
    cases checked
  | ok level =>
    cases found : s.rules.findIdx? (fun r => !r.isValid) with
    | none => rfl
    | some index =>
      rw [check, leveled, found] at checked
      cases checked

/-- The check on loading agrees with that on resolving: whatever arguments change in settings that
were loaded, no rule of theirs is refused for its pattern. -/
theorem refused_of_load (loaded : load d source environment = .ok s) (a : Command.Arguments)
    (failed : (a.override s).rulebook = .error fault) : Refused fault := by
  obtain ⟨_, _, _, _, _, checked⟩ := (load_eq_ok_iff (present_of_load loaded)).mp loaded
  refine refused_of_rulebook ?_ failed
  intro r member
  rw [Command.Arguments.override] at member
  split at member
  · cases member
  · exact patterns_of_check checked r member

theorem rulebook_ne_emptyPattern (loaded : load d source environment = .ok s)
    (a : Command.Arguments) (index : Nat) :
    (a.override s).rulebook ≠ .error (.configuration (.emptyPattern index)) := by
  intro failed
  cases refused_of_load loaded a failed

end Codemod.Settings
