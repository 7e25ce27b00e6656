import Codemod.Command.Migrate
import Codemod.Proofs.Run.Coherence
import Codemod.Proofs.Run.Order

/-! What is shown of a migration. The format decides on nothing but the text: two migrations of the
same tree end alike and leave the same tree, in whatever formats they are shown and in whatever order
files are visited. The text is made of the report alone, so that the lines which a person sees while
the rules have their turns are those of the attempts. -/
namespace Codemod

/-- The line of one attempt, which says when the rule is done. -/
def Attempt.progressLine (a : Attempt) : String :=
  s!"Replacing '{a.rule.pattern}' with '{a.rule.replacement}'..." ++
    match a.outcome with
    | .applied _ => "...done!\n"
    | .failed .. => "\n"

def Report.transcript (r : Report) : String := String.join (r.attempts.map Attempt.progressLine)

namespace Notice

theorem console_append (notices more : List Notice) :
    console (notices ++ more) = console notices ++ console more := by
  rw [console, List.map_append, String.join_append, console, console]

theorem console_singleton (n : Notice) : console [n] = n.text := by
  rw [console, List.map_singleton, String.join_cons]
  exact String.append_empty

theorem Tells.console {block : List Notice} {a : Attempt} (tells : Tells block a) :
    Notice.console block = a.progressLine := by
  cases tells with
  | applied index rule tally =>
    have quiet : Notice.console (if tally.replacements = 0 then [.unmatched index rule] else []) =
        "" := by
      split <;> rfl
    rw [← List.singleton_append, console_append, console_append, quiet, String.empty_append,
      console_singleton, console_singleton]
    rfl
  | failed index rule fault =>
    rw [← List.singleton_append, console_append, console_singleton, console_singleton]
    rfl

theorem console_flatten {blocks : List (List Notice)} {attempts : List Attempt}
    (tell : List.Forall₂ Tells blocks attempts) :
    console blocks.flatten = String.join (attempts.map Attempt.progressLine) := by
  induction tell with
  | nil => rfl
  | cons here later ih =>
    rw [List.flatten_cons, console_append, here.console, ih, List.map_cons, String.join_cons]

end Notice

/-- What a person sees of a run is a line for each entry of its report. -/
theorem Run.console_notices {r : Run} {timestamp : String} (coherent : r.Coherent timestamp) :
    Notice.console (r.notices timestamp) = (r.report timestamp).transcript := by
  obtain ⟨blocks, tell, told⟩ := coherent.notices
  rw [told, Notice.console_append, Notice.console_flatten tell]
  exact String.append_empty

namespace Editor

variable {e : Editor} {schedule schedule' : Schedule} {w : Workspace}

/-- Runs on the same workspace come to the same and leave the same disk. -/
theorem run_alike (sound : w.disk.root.WellFormed) (orders : schedule.Permutes)
    (orders' : schedule'.Permutes) (book : Rulebook) :
    (∀ timestamp, (e.run schedule book w).1.map (Run.observed timestamp) =
      (e.run schedule' book w).1.map (Run.observed timestamp)) ∧
    (e.run schedule book w).2.disk = (e.run schedule' book w).2.disk := by
  refine ⟨fun timestamp => ?_, ?_⟩
  · rw [run_observed sound orders, run_observed sound orders']
  · rcases ran : e.run schedule book w with ⟨outcome, final⟩
    rcases ran' : e.run schedule' book w with ⟨outcome', final'⟩
    by_cases rooted : w.disk.isFolder e.root
    · have follows := final_follows sound orders ran rooted
      have follows' := final_follows sound orders' ran' rooted
      exact (follows.alike follows' rfl fun _ _ => rfl).disk
    · rw [final_of_no_root ran rooted, final_of_no_root ran' rooted]

end Editor

namespace Command

/-- What a format shows of a report. -/
def Format.shown (format : Format) (r : Report) : String :=
  match format with
  | .human => r.transcript
  | .report => r.transcript ++ "\n" ++ r.text
  | .json => r.json ++ "\n"

theorem Format.render_eq {r : Run} {timestamp : String} (coherent : r.Coherent timestamp)
    (format : Format) : format.render r timestamp = format.shown (r.report timestamp) := by
  cases format with
  | human | report => simp only [render, shown, Run.console_notices coherent]
  | json => rfl

/-- A fault was found before anything was run, and nothing is shown. -/
structure Migration.Refused (m : Migration) (fault : Fault) : Prop where
  result : m.result = .error fault
  run : m.run = none
  failure : m.failure = none
  out : m.out = ""

/-- A run has come to its end, and its report is shown. -/
structure Migration.Ended (m : Migration) (r : Run) (format : Format) (timestamp : String) :
    Prop where
  result : m.result = .ok (r.report timestamp).exitCode
  run : m.run = some r
  failure : m.failure = (r.report timestamp).failure?.bind failureText
  out : m.out = format.shown (r.report timestamp)

section

variable {schedule schedule' : Schedule} {root : Path} {s : Settings} {d : Disk} {fault : Fault}
  {book : Rulebook} {r : Run} {final : Workspace}

theorem migrate_of_no_rulebook (schedule : Schedule) (root : Path) (d : Disk)
    (resolved : s.rulebook = .error fault) (timestamp : String) (format : Format) :
    (migrate schedule timestamp root s format false d).Refused fault ∧
      (migrate schedule timestamp root s format false d).disk = d := by
  simp only [migrate, resolved]
  exact ⟨⟨rfl, rfl, rfl, rfl⟩, trivial⟩

theorem migrate_of_no_run (resolved : s.rulebook = .ok book)
    (ran : (editorFor root s).run schedule book ⟨d, []⟩ = (.error fault, final))
    (timestamp : String) (format : Format) :
    (migrate schedule timestamp root s format false d).Refused fault ∧
      (migrate schedule timestamp root s format false d).disk = final.disk := by
  simp only [migrate, resolved, Bool.false_eq_true, if_false, ran]
  exact ⟨⟨rfl, rfl, rfl, rfl⟩, trivial⟩

theorem migrate_of_run (resolved : s.rulebook = .ok book)
    (ran : (editorFor root s).run schedule book ⟨d, []⟩ = (.ok r, final))
    (timestamp : String) (format : Format) :
    (migrate schedule timestamp root s format false d).Ended r format timestamp ∧
      (migrate schedule timestamp root s format false d).disk = final.disk := by
  have rendered := format.render_eq (Editor.coherent_of_run ran timestamp)
  simp only [migrate, resolved, Bool.false_eq_true, if_false, ran]
  exact ⟨⟨rfl, rfl, rfl, rendered⟩, trivial⟩

/-- A migration is refused or comes to the end of a run. -/
theorem migrate_cases (schedule : Schedule) (timestamp : String) (root : Path) (s : Settings)
    (format : Format) (d : Disk) :
    (∃ fault, (migrate schedule timestamp root s format false d).Refused fault) ∨
      ∃ r, (migrate schedule timestamp root s format false d).Ended r format timestamp := by
  rcases resolved : s.rulebook with fault | book
  · exact Or.inl ⟨fault, (migrate_of_no_rulebook schedule root d resolved timestamp format).1⟩
  · rcases ran : (editorFor root s).run schedule book ⟨d, []⟩ with ⟨fault | r, final⟩
    · exact Or.inl ⟨fault, (migrate_of_no_run resolved ran timestamp format).1⟩
    · exact Or.inr ⟨r, (migrate_of_run resolved ran timestamp format).1⟩

/-- What two migrations have in common that end alike. -/
structure Migration.Alike (m m' : Migration) : Prop where
  result : m.result = m'.result
  failure : m.failure = m'.failure
  disk : m.disk = m'.disk
  report : ∀ timestamp, m.run.map (·.report timestamp) = m'.run.map (·.report timestamp)

variable {m m' : Migration} {format format' : Format} {timestamp timestamp' : String}

theorem Migration.Refused.alike (refused : m.Refused fault) (refused' : m'.Refused fault)
    (disk : m.disk = m'.disk) : m.Alike m' where
  result := refused.result.trans refused'.result.symm
  failure := refused.failure.trans refused'.failure.symm
  disk := disk
  report := by simp [refused.run, refused'.run]

/-- Neither the exit code nor the failed rule of a report depends on its time. -/
theorem Migration.Ended.alike {r' : Run} (ended : m.Ended r format timestamp)
    (ended' : m'.Ended r' format' timestamp') (disk : m.disk = m'.disk)
    (reports : ∀ time, r.report time = r'.report time) : m.Alike m' where
  result := by
    rw [ended.result, ended'.result, reports timestamp]
    rfl
  failure := by
    rw [ended.failure, ended'.failure, reports timestamp]
    rfl
  disk := disk
  report := by simp [ended.run, ended'.run, reports]

theorem migrate_alike (sound : d.root.WellFormed) (orders : schedule.Permutes)
    (orders' : schedule'.Permutes) (timestamp timestamp' : String) (root : Path) (s : Settings)
    (format format' : Format) :
    (migrate schedule timestamp root s format false d).Alike
      (migrate schedule' timestamp' root s format' false d) := by
  rcases resolved : s.rulebook with fault | book
  · obtain ⟨refused, disk⟩ := migrate_of_no_rulebook schedule root d resolved timestamp format
    obtain ⟨refused', disk'⟩ :=
      migrate_of_no_rulebook schedule' root d resolved timestamp' format'
    exact refused.alike refused' (disk.trans disk'.symm)
  · obtain ⟨seen, left⟩ := Editor.run_alike (e := editorFor root s) (w := ⟨d, []⟩) sound orders
      orders' book
    rcases ran : (editorFor root s).run schedule book ⟨d, []⟩ with ⟨outcome, final⟩
    rcases ran' : (editorFor root s).run schedule' book ⟨d, []⟩ with ⟨outcome', final'⟩
    rw [ran, ran'] at seen left
    cases outcome with
    | error fault =>
      cases outcome' with
      | ok r' => cases seen timestamp
      | error fault' =>
        obtain rfl : fault = fault' := Except.error.inj (seen timestamp)
        obtain ⟨refused, disk⟩ := migrate_of_no_run resolved ran timestamp format
        obtain ⟨refused', disk'⟩ := migrate_of_no_run resolved ran' timestamp' format'
        exact refused.alike refused' (disk.trans (left.trans disk'.symm))
    | ok r =>
      cases outcome' with
      | error fault' => cases seen timestamp
      | ok r' =>
        obtain ⟨ended, disk⟩ := migrate_of_run resolved ran timestamp format
        obtain ⟨ended', disk'⟩ := migrate_of_run resolved ran' timestamp' format'
        refine ended.alike ended' (disk.trans (left.trans disk'.symm)) fun time => ?_
        exact congrArg Prod.fst (Except.ok.inj (seen time))

end

/-- Migrations of one tree with the same settings end alike, in whatever formats they are shown,
whenever they take place and in whatever order they visit files. A fault is shown in no format. At
the end of a run the text is that of its report: a line for each attempt, the same and the report for
people, or the report in JSON alone. -/
theorem migrate_shows {d : Disk} {schedules : Format → Schedule} (sound : d.root.WellFormed)
    (orders : ∀ format, (schedules format).Permutes) (timestamps : Format → String) (root : Path)
    (s : Settings) :
    (∀ format format',
      (migrate (schedules format) (timestamps format) root s format false d).Alike
        (migrate (schedules format') (timestamps format') root s format' false d)) ∧
    ∀ format,
      (∃ fault,
        (migrate (schedules format) (timestamps format) root s format false d).Refused fault) ∨
      ∃ r, (migrate (schedules format) (timestamps format) root s format false d).Ended r format
        (timestamps format) :=
  ⟨fun format format' => migrate_alike sound (orders format) (orders format') _ _ root s format
    format', fun format => migrate_cases _ _ root s format d⟩

/-- The settings with these two rules. -/
def chainedSettings : Settings :=
  { Settings.default with rules := chainedRules.rules, extensions := chainedRules.extensions }

theorem migrate_shows_chained :
    (migrate (fun _ files => files.reverse) "now" [Path.slash] chainedSettings .human false
      (chainedDisk [255])).Alike
      (migrate Schedule.inOrder "then" [Path.slash] chainedSettings .json false
        (chainedDisk [255])) ∧
    (migrate (fun _ files => files.reverse) "now" [Path.slash] chainedSettings .human false
      (chainedDisk [255])).out = "Replacing 'a' with 'b'...\n" ∧
    ∃ r, (migrate Schedule.inOrder "then" [Path.slash] chainedSettings .json false
      (chainedDisk [255])).Ended r .json "then" := by
  let schedules : Format → Schedule
    | .json => Schedule.inOrder
    | .human | .report => fun _ files => files.reverse
  let timestamps : Format → String
    | .json => "then"
    | .human | .report => "now"
  have orders : ∀ format, (schedules format).Permutes := by
    intro format
    cases format with
    | json => exact fun _ files => .refl files
    | human | report => exact fun _ files => files.reverse_perm
  obtain ⟨alike, shown⟩ := migrate_shows (chainedDisk_wellFormed [255]) orders timestamps
    [Path.slash] chainedSettings
  refine ⟨alike .human .json, by decide +kernel, (shown .json).resolve_left ?_⟩
  rintro ⟨fault, refused⟩
  have finished : (migrate Schedule.inOrder "then" [Path.slash] chainedSettings .json false
      (chainedDisk [255])).run.isSome := by
    decide +kernel
  rw [refused.run] at finished
  cases finished

end Command

end Codemod
