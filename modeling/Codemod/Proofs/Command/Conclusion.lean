import Codemod.Command.Execute
import Codemod.Proofs.Editor.DryRun
import Codemod.Proofs.Editor.Effect
import Codemod.Proofs.Run.Coherence

/-! How the program ends, and when the disk is as it was. Either it comes to a run, whose report has
the exit code, or it ends before anything is touched. It stops short only on a torn string. -/
namespace Codemod

/-- A string in a variable of the program is torn, or a directive of the log filter. -/
def Environment.Torn (environment : List (String × String)) : Prop :=
  layer? programName environment = none ∨
    ∃ text, environment.lookup logVariable = some text ∧ Log.Filter.ofText text = .error .torn

theorem Settings.ofLayers_not_torn (layers : Data) :
    (ofLayers layers).mapError Failure.fault ≠ .error .torn := by
  rcases ofLayers layers with fault | settings <;> simp [Except.mapError]

theorem Settings.torn_of_load {d : Disk} {source : Source} {environment : List (String × String)}
    (stopped : load d source environment = .error .torn) :
    Environment.layer? source.program environment = none := by
  rcases layered : Environment.layer? source.program environment with _ | layer
  · rfl
  · simp only [load, layered, pure_bind] at stopped
    split at stopped
    · split at stopped
      · split at stopped
        · contradiction
        · cases stopped
        · exact absurd stopped (ofLayers_not_torn _)
      · cases stopped
    · exact absurd stopped (ofLayers_not_torn _)

theorem Log.Filter.torn_of_choose? {level : Level} {environment : Option String}
    (stopped : choose? level environment = none) :
    ∃ text, environment = some text ∧ ofText text = .error .torn := by
  rcases environment with _ | text
  · cases stopped
  · rcases read : ofText text with misreading | filter
    · cases misreading with
      | torn => exact ⟨text, rfl, read⟩
      | malformed => simp [choose?, read] at stopped
    · simp [choose?, read] at stopped

theorem Editor.run_disk_of_error {e : Editor} {schedule : Schedule} {book : Rulebook}
    {w final : Workspace} {fault : Fault} (ran : e.run schedule book w = (.error fault, final)) :
    final = w := by
  cases rooted : w.disk.isFolder e.root with
  | false =>
    rw [run_of_no_root schedule book rooted, Prod.mk.injEq] at ran
    exact ran.2.symm
  | true =>
    rw [run_of_folder e schedule book rooted] at ran
    simp at ran

namespace Command

/-- These settings hold for these arguments. -/
structure Invocation.Governed (i : Invocation) (a : Arguments) (s : Settings) : Prop where
  parsed : Arguments.parse i.arguments = .ok a
  loaded : ∃ loaded, Settings.load i.disk a.source i.environment = .ok loaded ∧
    s = a.override loaded

/-- Nothing is run and nothing touched. -/
structure Conclusion.Idle (c : Conclusion) (d : Disk) : Prop where
  run : c.run = none
  disk : c.disk = d
  code : c.code ≠ .ruleFailed

/-- Settings have been carried out by a run of their rulebook. -/
structure Conclusion.Ran (c : Conclusion) (i : Invocation) (a : Arguments) (s : Settings)
    (r : Run) : Prop where
  listRules : a.listRules = false
  printConfig : a.printConfig = false
  ran : ∃ book final, s.rulebook = .ok book ∧
    (editorFor a.root s).run i.schedule book ⟨i.disk, []⟩ = (.ok r, final) ∧ c.disk = final.disk
  run : c.run = some r
  code : c.code = (r.report i.timestamp).exitCode

variable {i : Invocation} {a : Arguments} {s : Settings} {c : Conclusion} {r : Run}

theorem perform_cases (i : Invocation) (a : Arguments) (s : Settings) (level : Log.Level)
    (file : Option Path) (filter : Log.Filter) :
    ((perform i a s level file filter).Idle i.disk ∧
      (perform i a s level file filter).code ≠ .aborted) ∨
      ∃ r, (perform i a s level file filter).Ran i a s r := by
  cases shown : a.printConfig with
  | true =>
    left
    rw [perform, if_pos shown]
    exact ⟨⟨rfl, rfl, by simp⟩, by simp⟩
  | false =>
    rw [perform, if_neg (by simp [shown])]
    rcases resolved : s.rulebook with fault | book
    · left
      simp only [migrate, resolved]
      exact ⟨⟨rfl, rfl, by simp⟩, by simp⟩
    · cases listed : a.listRules with
      | true =>
        left
        simp only [migrate, resolved, if_true]
        exact ⟨⟨rfl, rfl, by simp⟩, by simp⟩
      | false =>
        rcases ran : (editorFor a.root s).run i.schedule book ⟨i.disk, []⟩ with ⟨fault | r, final⟩
        · left
          have kept := Editor.run_disk_of_error ran
          simp only [migrate, resolved, Bool.false_eq_true, if_false, ran, kept]
          exact ⟨⟨rfl, rfl, by simp⟩, by simp⟩
        · right
          simp only [migrate, resolved, Bool.false_eq_true, if_false, ran]
          exact ⟨r, listed, shown, ⟨book, final, resolved, ran, rfl⟩, rfl, rfl⟩

theorem execute_cases (i : Invocation) (a : Arguments) :
    ((execute i a).Idle i.disk ∧
      ((execute i a).code = .aborted → Environment.Torn i.environment)) ∨
      ∃ loaded r, Settings.load i.disk a.source i.environment = .ok loaded ∧
        (execute i a).Ran i a (a.override loaded) r := by
  have aborted : (abort i.disk).Idle i.disk := ⟨rfl, rfl, by simp [abort]⟩
  have refused : ∀ text, (refuse i.disk text).Idle i.disk ∧
      ((refuse i.disk text).code = .aborted → Environment.Torn i.environment) :=
    fun text => ⟨⟨rfl, rfl, by simp [refuse]⟩, by simp [refuse]⟩
  rw [execute, Arguments.settings]
  rcases loading : Settings.load i.disk a.source i.environment with failure | loaded
  · simp only [Except.map]
    cases failure with
    | torn =>
      have torn := Settings.torn_of_load loading
      exact Or.inl ⟨aborted, fun _ => Or.inl torn⟩
    | fault fault => exact Or.inl (refused _)
  · simp only [Except.map]
    rcases Log.Level.parse (a.override loaded).logging.level with fault | level
    · exact Or.inl (refused _)
    · simp only
      rcases chosen : Log.Filter.choose? level (i.environment.lookup Environment.logVariable)
        with _ | filter
      · exact Or.inl ⟨aborted, fun _ => Or.inr (Log.Filter.torn_of_choose? chosen)⟩
      · rcases perform_cases i a (a.override loaded) level (a.source.file? i.disk) filter with
          ⟨idle, whole⟩ | ⟨r, ran⟩
        · exact Or.inl ⟨idle, fun stopped => absurd stopped whole⟩
        · exact Or.inr ⟨loaded, r, rfl, ran⟩

/-- Either nothing is run and nothing touched, or the settings that hold are run. -/
theorem run_cases (i : Invocation) :
    ((run i).Idle i.disk ∧ ((run i).code = .aborted → Environment.Torn i.environment)) ∨
      ∃ a s r, i.Governed a s ∧ (run i).Ran i a s r := by
  rw [run]
  rcases parsed : Arguments.parse i.arguments with usage | a
  · have wrong : usage.exitCode = .success ∨ usage.exitCode = .misconfigured := by
      cases usage <;> simp [Usage.exitCode]
    left
    refine ⟨⟨rfl, rfl, ?_⟩, fun stopped => ?_⟩
    · rcases wrong with code | code <;> simp [code]
    · rcases wrong with code | code <;> simp [code] at stopped
  · rcases execute_cases i a with idle | ⟨loaded, r, loading, ran⟩
    · exact Or.inl idle
    · exact Or.inr ⟨a, _, r, ⟨parsed, loaded, loading, rfl⟩, ran⟩

theorem Conclusion.Ran.coherent (ran : c.Ran i a s r) : r.Coherent i.timestamp := by
  obtain ⟨book, final, _, started, _⟩ := ran.ran
  exact Editor.coherent_of_run started i.timestamp

/-- A run ends with success, or with a failed rule in its report. -/
theorem Conclusion.Ran.code_cases (ran : c.Ran i a s r) :
    (c.code = .success ∧ (r.report i.timestamp).progress = .done) ∨
      (c.code = .ruleFailed ∧
        ∃ index reason, (r.report i.timestamp).progress = .failed index reason) := by
  have coherent := ran.coherent.report
  by_cases done : (r.report i.timestamp).progress = .done
  · left
    exact ⟨by rw [ran.code, coherent.exitCode, if_pos done], done⟩
  · right
    refine ⟨by rw [ran.code, coherent.exitCode, if_neg done], ?_⟩
    obtain ⟨last, reason, _, _, _, stopped, _⟩ := coherent.failed done
    exact ⟨_, _, stopped⟩

theorem Conclusion.Ran.disk_of_dry (ran : c.Ran i a s r) (dry : s.dryRun = true) :
    c.disk = i.disk := by
  obtain ⟨book, final, _, started, disk⟩ := ran.ran
  have kept := Editor.run_disk_of_dry (e := editorFor a.root s) dry i.schedule book ⟨i.disk, []⟩
  rw [started] at kept
  exact disk.trans kept

theorem Invocation.Governed.unique {a' : Arguments} {s' : Settings} (governed : i.Governed a s)
    (governed' : i.Governed a' s') : a' = a ∧ s' = s := by
  obtain ⟨parsed, loaded, loading, rfl⟩ := governed
  obtain ⟨parsed', loaded', loading', rfl⟩ := governed'
  obtain rfl : a = a' := Except.ok.inj (parsed.symm.trans parsed')
  obtain rfl : loaded = loaded' := Except.ok.inj (loading.symm.trans loading')
  exact ⟨rfl, rfl⟩

theorem code_of_sound (i : Invocation) (sound : ¬Environment.Torn i.environment) :
    (run i).code.toNat ∈ [0, 1, 2] := by
  rcases run_cases i with ⟨_, whole⟩ | ⟨a, s, r, _, ran⟩
  · cases code : (run i).code with
    | success | ruleFailed | misconfigured => simp [ExitCode.toNat]
    | aborted => exact absurd (whole code) sound
  · rcases ran.code_cases with ⟨code, _⟩ | ⟨code, _⟩ <;> simp [code, ExitCode.toNat]

theorem code_eq_one_iff (i : Invocation) : (run i).code.toNat = 1 ↔ ∃ r, (run i).run = some r ∧
    ∃ index reason, (r.report i.timestamp).progress = .failed index reason := by
  rcases run_cases i with ⟨idle, _⟩ | ⟨a, s, r, _, ran⟩
  · constructor
    · intro one
      refine absurd ?_ idle.code
      cases code : (run i).code <;> simp_all [ExitCode.toNat]
    · rintro ⟨r, started, _⟩
      rw [idle.run] at started
      cases started
  · rw [ran.run]
    rcases ran.code_cases with ⟨code, done⟩ | ⟨code, failed⟩
    · simp [code, ExitCode.toNat, done]
    · simpa [code, ExitCode.toNat] using failed

theorem idle_of_code (i : Invocation) (other : (run i).code.toNat ∉ [0, 1]) :
    (run i).run = none ∧ (run i).disk = i.disk := by
  rcases run_cases i with ⟨idle, _⟩ | ⟨a, s, r, _, ran⟩
  · exact ⟨idle.run, idle.disk⟩
  · rcases ran.code_cases with ⟨code, _⟩ | ⟨code, _⟩ <;> simp [code, ExitCode.toNat] at other

/-- The disk changes only through a run that was asked for and is no dry run. -/
theorem governed_of_changed (i : Invocation) (changed : (run i).disk ≠ i.disk) :
    ∃ a s, i.Governed a s ∧ a.listRules = false ∧ a.printConfig = false ∧ s.dryRun = false := by
  rcases run_cases i with ⟨idle, _⟩ | ⟨a, s, r, governed, ran⟩
  · exact absurd idle.disk changed
  · refine ⟨a, s, governed, ran.listRules, ran.printConfig, ?_⟩
    by_contra dry
    exact changed (ran.disk_of_dry (by simpa using dry))

theorem wantedFiles_of_governed (governed : i.Governed a s) {book : Rulebook}
    (resolved : s.rulebook = .ok book) :
    a.wantedFiles i.disk i.environment = (editorFor a.root s).candidates book i.disk := by
  obtain ⟨_, loaded, loading, rfl⟩ := governed
  simp only [Arguments.wantedFiles, Arguments.settings, loading, Except.map, resolved]

/-- However the program ends, it has touched none but the wanted files. -/
theorem run_agreesOutside (parsed : Arguments.parse i.arguments = .ok a)
    (sound : i.disk.root.WellFormed) (orders : i.schedule.Permutes) :
    i.disk.AgreesOutside (fun location =>
      ∃ p, p ∈ a.wantedFiles i.disk i.environment ∧ i.disk.locate p = .ok location)
      (run i).disk := by
  rcases run_cases i with ⟨idle, _⟩ | ⟨a', s, r, governed, ran⟩
  · rw [idle.disk]
    exact .refl _ i.disk
  · obtain rfl : a' = a := Except.ok.inj (governed.parsed.symm.trans parsed)
    obtain ⟨book, final, resolved, started, disk⟩ := ran.ran
    obtain ⟨_, _, _, follows⟩ := Editor.of_run sound orders started
    obtain ⟨place, charted⟩ := Editor.candidates_charts sound (editorFor a'.root s) book
    rw [disk, wantedFiles_of_governed governed resolved]
    exact follows.agreesOutside charted

/-- Without a torn string the exit code is 0, 1 or 2, and it is 1 if and only if a run was started
and its report has failed. With any other code than 0 and 1 nothing was run. Nothing is touched
then, nor when arguments are refused or ask for help, when rules or settings are only shown, or in
a dry run. -/
theorem run_concludes (i : Invocation) :
    (¬Environment.Torn i.environment → (run i).code.toNat ∈ [0, 1, 2]) ∧
    ((run i).code.toNat = 1 ↔ ∃ r, (run i).run = some r ∧
      ∃ index reason, (r.report i.timestamp).progress = .failed index reason) ∧
    ((run i).code.toNat ∉ [0, 1] → (run i).run = none ∧ (run i).disk = i.disk) ∧
    (∀ usage, Arguments.parse i.arguments = .error usage → (run i).disk = i.disk) ∧
    (∀ a, Arguments.parse i.arguments = .ok a → a.listRules = true ∨ a.printConfig = true →
      (run i).disk = i.disk) ∧
    (∀ a s, i.Governed a s → s.dryRun = true → (run i).disk = i.disk) := by
  refine ⟨code_of_sound i, code_eq_one_iff i, idle_of_code i, fun usage parsed => ?_,
    fun a parsed shown => ?_, fun a s governed dry => ?_⟩ <;> by_contra changed <;>
    obtain ⟨a', s', governed', listed, printed, wet⟩ := governed_of_changed i changed
  · rw [governed'.parsed] at parsed
    cases parsed
  · obtain rfl : a' = a := Except.ok.inj (governed'.parsed.symm.trans parsed)
    simp [listed, printed] at shown
  · obtain ⟨_, rfl⟩ := governed.unique governed'
    simp [wet] at dry

/-- A file that is no text fails the first rule that comes to it. -/
example : (run ⟨["/"], [], chainedDisk [255], "", Schedule.inOrder⟩).code.toNat = 1 := by
  decide +kernel

/-- A torn string stops the program with another code. -/
theorem run_torn : (run ⟨["tree", "--list-rules"], [("RECODE_U", "\"é\\n\"")], chainedDisk [], "",
    Schedule.inOrder⟩).code.toNat ∉ [0, 1, 2] := by
  decide +kernel

end Command

end Codemod
