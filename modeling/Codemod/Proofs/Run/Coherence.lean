import Codemod.Proofs.Run.Outcome
import Codemod.Report.Text
import Mathlib.Data.List.Forall2

/-! What an observer is told of a run, what its report says and how it ends agree. Rules have their
turns in order, and only the last turn can fail. The state, the summary, the search for a failed
rule, the exit code and the rendered text give one verdict. -/
namespace Codemod

theorem Pass.settle_coherent {t u : Tally} {results : List (Except Fault Nat)}
    (coherent : t.Coherent) (settled : settle t results = .ok u) : u.Coherent := by
  induction results generalizing t with
  | nil =>
    cases settled
    exact coherent
  | cons result rest ih =>
    cases result with
    | error fault => cases settled
    | ok n => exact ih (Tally.record_coherent coherent n) settled

theorem Pass.outcome_coherent {p : Pass} {t : Tally} (passed : p.outcome = .ok t) :
    t.Coherent := by
  unfold Pass.outcome at passed
  split at passed
  · cases passed
  · exact settle_coherent Tally.zero_coherent passed

theorem Tally.changed_foldl_add (tallies : List Tally) (t : Tally) :
    (tallies.foldl Tally.add t).changed = t.changed + (tallies.map (·.changed)).sum := by
  induction tallies generalizing t with
  | nil => rfl
  | cons u tallies ih => simp [ih, Tally.add, Nat.add_assoc]

theorem Tally.replacements_foldl_add (tallies : List Tally) (t : Tally) :
    (tallies.foldl Tally.add t).replacements =
      t.replacements + (tallies.map (·.replacements)).sum := by
  induction tallies generalizing t with
  | nil => rfl
  | cons u tallies ih => simp [ih, Tally.add, Nat.add_assoc]

namespace Verdict

def Applied (v : Verdict) : Prop := ∃ tally, v.outcome = .ok tally

/-- What rules can come to that have their turns one after another, the first of them at this
position: all are applied, or the first that fails is the last. -/
inductive Course : Nat → List Rule → List Verdict → Prop where
  | ended (index : Nat) : Course index [] []
  | failed (index : Nat) (rule : Rule) (rules : List Rule) (fault : Fault) :
    Course index (rule :: rules) [⟨index, rule, .error fault⟩]
  | applied {index : Nat} {rules : List Rule} {verdicts : List Verdict} {tally : Tally}
    (rule : Rule) (coherent : tally.Coherent) (later : Course (index + 1) rules verdicts) :
    Course index (rule :: rules) (⟨index, rule, .ok tally⟩ :: verdicts)

variable {index k : Nat} {rules : List Rule} {verdicts front : List Verdict} {v : Verdict}

theorem Course.length_le (course : Course index rules verdicts) :
    verdicts.length ≤ rules.length := by
  induction course with
  | ended => exact Nat.le_refl _
  | failed => simp
  | applied _ _ _ ih => exact Nat.succ_le_succ ih

theorem Course.placed (course : Course index rules verdicts) (here : verdicts[k]? = some v) :
    v.index = index + k ∧ rules[k]? = some v.rule := by
  induction course generalizing k with
  | ended => simp at here
  | failed index rule rules fault =>
    cases k with
    | zero =>
      cases here
      exact ⟨rfl, rfl⟩
    | succ k => simp at here
  | applied rule _ _ ih =>
    cases k with
    | zero =>
      cases here
      exact ⟨rfl, rfl⟩
    | succ k =>
      obtain ⟨position, found⟩ := ih here
      exact ⟨by omega, found⟩

theorem Course.coherent (course : Course index rules verdicts) (member : v ∈ verdicts)
    {tally : Tally} (applied : v.outcome = .ok tally) : tally.Coherent := by
  induction course with
  | ended => cases member
  | failed =>
    rw [List.mem_singleton.mp member] at applied
    cases applied
  | applied rule coherent _ ih =>
    rcases List.mem_cons.mp member with rfl | later
    · cases applied
      exact coherent
    · exact ih later

/-- Either every rule is applied, or all but the last that had its turn. -/
theorem Course.ending (course : Course index rules verdicts) :
    (verdicts.length = rules.length ∧ ∀ v ∈ verdicts, v.Applied) ∨
      ∃ front last fault, verdicts = front ++ [last] ∧ (∀ v ∈ front, v.Applied) ∧
        last.outcome = .error fault := by
  induction course with
  | ended => exact Or.inl ⟨rfl, by simp⟩
  | failed index rule rules fault => exact Or.inr ⟨[], _, fault, rfl, by simp, rfl⟩
  | @applied index _ _ tally rule _ _ ih =>
    have here : Applied ⟨index, rule, .ok tally⟩ := ⟨tally, rfl⟩
    rcases ih with ⟨length, applied⟩ | ⟨front, last, fault, rfl, applied, failed⟩
    · exact Or.inl ⟨by simp [length], List.forall_mem_cons.mpr ⟨here, applied⟩⟩
    · exact Or.inr ⟨_ :: front, last, fault, rfl, List.forall_mem_cons.mpr ⟨here, applied⟩,
        failed⟩

/-- Applied rules take a run further, as long as there are others. -/
theorem running_of_applied {total : Nat} (applied : ∀ v ∈ front, v.Applied)
    (others : index + front.length < total) :
    front.foldl (fun state v => state.after (v.step total)) (Progress.running index) =
      .running (index + front.length) := by
  induction front generalizing index with
  | nil => rfl
  | cons v front ih =>
    obtain ⟨tally, ok⟩ := applied v (List.mem_cons_self ..)
    rw [List.length_cons] at others
    have advanced : Progress.after (.running index) (v.step total) = .running (index + 1) := by
      have more : ¬total ≤ index + 1 := by omega
      simp [Verdict.step, ok, Progress.after, Progress.advance, more]
    rw [List.foldl_cons, advanced,
      ih (fun v later => applied v (List.mem_cons_of_mem _ later)) (by omega), List.length_cons]
    congr 1
    omega

/-- A run has come to the rules in front of which all were applied. -/
theorem progress_of_applied {total : Nat} (applied : ∀ v ∈ front, v.Applied)
    (others : front.length < total) : progress total front = .running front.length := by
  have begun : Progress.idle.start total = .running 0 := by
    have some_rule : total ≠ 0 := by omega
    simp [Progress.start, some_rule]
  rw [progress, begun, running_of_applied applied (by omega), Nat.zero_add]

/-- The verdicts before a turn are those of applied rules, so the run has come to this turn. -/
theorem Course.progress_take (course : Course 0 rules verdicts) (inside : k < verdicts.length) :
    progress rules.length (verdicts.take k) = .running k := by
  have applied : ∀ v ∈ verdicts.take k, v.Applied := by
    intro v member
    rcases course.ending with ⟨_, applied⟩ | ⟨front, last, fault, rfl, applied, _⟩
    · exact applied v (List.mem_of_mem_take member)
    · rw [List.length_append, List.length_singleton] at inside
      rw [List.take_append_of_le_length (by omega)] at member
      exact applied v (List.mem_of_mem_take member)
  have length : (verdicts.take k).length = k := by
    rw [List.length_take]
    omega
  have shorter := course.length_le
  rw [progress_of_applied applied (by omega), length]

theorem Course.progress_done (course : Course 0 rules verdicts)
    (length : verdicts.length = rules.length) (applied : ∀ v ∈ verdicts, v.Applied) :
    progress rules.length verdicts = .done := by
  cases verdicts with
  | nil =>
    rw [← length]
    rfl
  | cons v verdicts =>
    have begun : Progress.idle.start rules.length = .running 0 := by
      simp [Progress.start, ← length]
    rw [progress, begun]
    exact done_of_applied applied (by simp) (by omega)

theorem Course.progress_failed {last : Verdict} {fault : Fault}
    (course : Course 0 rules (front ++ [last])) (applied : ∀ v ∈ front, v.Applied)
    (failed : last.outcome = .error fault) :
    last.index = front.length ∧
      progress rules.length (front ++ [last]) = .failed front.length fault.message := by
  have placed := (course.placed (k := front.length) (v := last) (by simp)).1
  have shorter := course.length_le
  rw [List.length_append, List.length_singleton] at shorter
  have come : progress rules.length front = .running front.length :=
    progress_of_applied applied (by omega)
  refine ⟨by omega, ?_⟩
  rw [progress] at come
  rw [progress, List.foldl_append, come]
  simp [Verdict.step, failed, Progress.after, Progress.fail]

end Verdict

/-- The turns of a run take the course of its rules. -/
theorem Editor.takeTurns_course (e : Editor) (schedule : Schedule) (extensions : List String)
    (index : Nat) (rules : List Rule) (w : Workspace) :
    Verdict.Course index rules
      ((e.takeTurns schedule extensions index rules w).1.map Turn.verdict) := by
  induction rules generalizing index w with
  | nil => exact .ended index
  | cons rule rules ih =>
    rw [Editor.takeTurns]
    cases passed : (e.pass (schedule index) rule extensions w).1.outcome with
    | error fault =>
      simp only [List.map_cons, List.map_nil, Turn.verdict, passed]
      exact .failed index rule rules fault
    | ok tally =>
      simp only [List.map_cons, Turn.verdict, passed]
      exact .applied rule (Pass.outcome_coherent passed) (ih (index + 1) _)

/-- What an observer is told of one attempt. -/
inductive Notice.Tells : List Notice → Attempt → Prop where
  | applied (index : Nat) (rule : Rule) (tally : Tally) :
    Tells (.started index rule ::
        ((if tally.replacements = 0 then [.unmatched index rule] else []) ++
          [.completed index rule tally]))
      ⟨index, rule, .applied tally⟩
  | failed (index : Nat) (rule : Rule) (fault : Fault) :
    Tells [.started index rule, .failed index rule fault]
      ⟨index, rule, .failed fault.message fault.path?⟩

theorem Verdict.tells (v : Verdict) : Notice.Tells v.notices v.attempt := by
  obtain ⟨index, rule, outcome⟩ := v
  cases outcome with
  | error fault => exact .failed index rule fault
  | ok tally =>
    have told := Notice.Tells.applied index rule tally
    simpa [Verdict.notices, Verdict.attempt, Tally.isUnmatched] using told

theorem Verdict.forall₂_tells (verdicts : List Verdict) :
    List.Forall₂ Notice.Tells (verdicts.map notices) (verdicts.map attempt) := by
  induction verdicts with
  | nil => exact .nil
  | cons v verdicts ih => exact .cons v.tells ih

namespace Report

/-- A number is not the word that ends the text of a run without failure. -/
theorem not_passed_suffix_verdict (body : List Char) (index : Nat) (reason : String) :
    ¬"\nResult: PASSED\n".toList <:+ body ++ (verdict (.failed index reason)).toList := by
  obtain ⟨front, digit, digits⟩ : ∃ front digit,
      Nat.toDigits 10 (index + 1) = front ++ [digit] :=
    (List.eq_nil_or_concat' _).resolve_left Nat.toDigits_ne_nil
  have numeric : digit.isDigit :=
    Nat.isDigit_of_mem_toDigits (by decide) (by decide)
      (digits ▸ List.mem_append_right front (List.mem_singleton_self digit))
  have shown : (verdict (.failed index reason)).toList =
      ("\nResult: FAILED at rule ".toList ++ front) ++ [digit, '\n'] := by
    have worded : verdict (.failed index reason) =
        "\nResult: FAILED at rule " ++ toString (index + 1) ++ "\n" := rfl
    rw [worded, Nat.toString_eq_ofList_toDigits, digits]
    simp only [String.toList_append, String.toList_ofList, List.append_assoc]
    rfl
  intro passed
  have word : ['D', '\n'] <:+ body ++ (verdict (.failed index reason)).toList :=
    List.IsSuffix.trans ⟨"\nResult: PASSE".toList, by simp⟩ passed
  have number : [digit, '\n'] <:+ body ++ (verdict (.failed index reason)).toList :=
    ⟨body ++ ("\nResult: FAILED at rule ".toList ++ front), by rw [shown, List.append_assoc]⟩
  have same := (List.suffix_of_suffix_length_le word number (by simp)).eq_of_length (by simp)
  obtain rfl : 'D' = digit := (List.cons.inj same).1
  exact absurd numeric (by decide)

/-- A report on these rules whose entries, state, counters and verdicts agree. -/
structure Coherent (r : Report) (rules : List Rule) : Prop where
  /-- The entries are about the first rules, in order. -/
  placed : ∀ k (attempt : Attempt), r.attempts[k]? = some attempt →
    attempt.index = k ∧ rules[k]? = some attempt.rule
  /-- Only the last entry can be a failure. -/
  applied : ∀ attempt ∈ r.attempts.dropLast, attempt.outcome.isApplied
  tallies : ∀ attempt ∈ r.attempts, ∀ tally, attempt.outcome = .applied tally →
    tally.Coherent
  done_iff : r.progress = .done ↔
    r.attempts.length = rules.length ∧ ∀ attempt ∈ r.attempts, attempt.outcome.isApplied
  /-- The last entry is the failure that the state, the search and the text tell of. -/
  failed : r.progress ≠ .done → ∃ last reason path, r.attempts.getLast? = some last ∧
    last.outcome = .failed reason path ∧ r.progress = .failed last.index reason ∧
      r.failure? = some last ∧
      s!"\nResult: FAILED at rule {last.index + 1}\n".toList <:+ r.text.toList
  total : r.summary.total = rules.length
  counted : r.summary.applied + (if r.progress = .done then 0 else 1) + r.summary.skipped =
    r.summary.total
  changed : r.summary.changed = ((r.attempts.filterMap (·.outcome.tally?)).map (·.changed)).sum
  replacements : r.summary.replacements =
    ((r.attempts.filterMap (·.outcome.tally?)).map (·.replacements)).sum
  passed : r.passed ↔ r.progress = .done
  failure : r.failure? = none ↔ r.progress = .done
  exitCode : r.exitCode = if r.progress = .done then .success else .ruleFailed
  text : "\nResult: PASSED\n".toList <:+ r.text.toList ↔ r.progress = .done

theorem verdict_suffix_text (r : Report) : (verdict r.progress).toList <:+ r.text.toList := by
  rw [text, String.toList_append]
  exact List.suffix_append _ _

/-- The text ends in the word for success exactly if the run is done. -/
theorem passed_suffix_text_iff (r : Report) (ended : r.progress = .done ∨
    ∃ index reason, r.progress = .failed index reason) :
    "\nResult: PASSED\n".toList <:+ r.text.toList ↔ r.progress = .done := by
  obtain ⟨body, shown⟩ := r.verdict_suffix_text
  rw [← shown]
  rcases ended with done | ⟨index, reason, failed⟩
  · rw [done]
    exact ⟨fun _ => rfl, fun _ => List.suffix_append body _⟩
  · rw [failed]
    exact ⟨fun passed => absurd passed (not_passed_suffix_verdict body index reason),
      fun done => by cases done⟩

end Report

namespace Verdict

variable {rules : List Rule} {verdicts front : List Verdict} {v : Verdict}

theorem Applied.isApplied (applied : v.Applied) : v.attempt.outcome.isApplied := by
  obtain ⟨tally, ok⟩ := applied
  simp [attempt, ok, Outcome.isApplied]

theorem attempt_of_error {fault : Fault} (failed : v.outcome = .error fault) :
    v.attempt = ⟨v.index, v.rule, .failed fault.message fault.path?⟩ := by
  simp [attempt, failed]

theorem forall_isApplied (applied : ∀ v ∈ front, v.Applied) :
    ∀ a ∈ front.map attempt, a.outcome.isApplied := by
  intro a member
  obtain ⟨v, inside, rfl⟩ := List.mem_map.mp member
  exact (applied v inside).isApplied

theorem Applied.isSome_tally? (applied : v.Applied) : v.attempt.outcome.tally?.isSome := by
  obtain ⟨tally, ok⟩ := applied
  simp [attempt, ok, Outcome.tally?]

theorem Course.attempt_placed (course : Course 0 rules verdicts) (k : Nat) (a : Attempt)
    (here : (verdicts.map attempt)[k]? = some a) : a.index = k ∧ rules[k]? = some a.rule := by
  rw [List.getElem?_map, Option.map_eq_some_iff] at here
  obtain ⟨v, here, rfl⟩ := here
  obtain ⟨position, found⟩ := course.placed here
  exact ⟨position.trans (Nat.zero_add k), found⟩

theorem Course.attempt_coherent (course : Course 0 rules verdicts) (a : Attempt)
    (member : a ∈ verdicts.map attempt) (tally : Tally) (applied : a.outcome = .applied tally) :
    tally.Coherent := by
  obtain ⟨v, inside, rfl⟩ := List.mem_map.mp member
  cases outcome : v.outcome with
  | error fault => simp [attempt, outcome] at applied
  | ok other =>
    obtain rfl : other = tally := by simpa [attempt, outcome] using applied
    exact course.coherent inside outcome

theorem Course.report_of_done (e : Editor) (course : Course 0 rules verdicts)
    (length : verdicts.length = rules.length) (applied : ∀ v ∈ verdicts, v.Applied)
    (timestamp : String) : (report e rules.length verdicts timestamp).Coherent rules := by
  have done : (report e rules.length verdicts timestamp).progress = .done :=
    course.progress_done length applied
  have passed : (report e rules.length verdicts timestamp).passed = true := decide_eq_true done
  have all := forall_isApplied applied
  have found_none : (report e rules.length verdicts timestamp).failure? = none := by
    refine List.find?_eq_none.mpr fun a member => ?_
    simp [all a member]
  exact {
    placed := course.attempt_placed
    applied := fun a member => all a (List.dropLast_subset _ member)
    tallies := course.attempt_coherent
    done_iff := ⟨fun _ => ⟨by simp [report, Report.assemble, length], all⟩, fun _ => done⟩
    failed := fun unfinished => absurd done unfinished
    total := rfl
    counted := by
      have tallied : ∀ v ∈ verdicts, v.attempt.outcome.tally?.isSome := fun v member =>
        (applied v member).isSome_tally?
      rw [if_pos done]
      simpa [report, Report.assemble, Report.summarize, ← length] using tallied
    changed := (Tally.changed_foldl_add _ _).trans (Nat.zero_add _)
    replacements := (Tally.replacements_foldl_add _ _).trans (Nat.zero_add _)
    passed := ⟨fun _ => done, fun _ => passed⟩
    failure := ⟨fun _ => done, fun _ => found_none⟩
    exitCode := by rw [if_pos done, Report.exitCode, if_pos passed]
    text := Report.passed_suffix_text_iff _ (Or.inl done) }

theorem Course.report_of_failed (e : Editor) {last : Verdict} {fault : Fault}
    (course : Course 0 rules (front ++ [last])) (applied : ∀ v ∈ front, v.Applied)
    (failed : last.outcome = .error fault) (timestamp : String) :
    (report e rules.length (front ++ [last]) timestamp).Coherent rules := by
  obtain ⟨position, state⟩ := course.progress_failed applied failed
  have stopped : (report e rules.length (front ++ [last]) timestamp).progress =
      .failed front.length fault.message := state
  have undone : (report e rules.length (front ++ [last]) timestamp).progress ≠ .done := by
    rw [stopped]
    simp
  have unpassed : ¬(report e rules.length (front ++ [last]) timestamp).passed = true :=
    fun passed => undone (of_decide_eq_true passed)
  have entries : (report e rules.length (front ++ [last]) timestamp).attempts =
      front.map attempt ++ [last.attempt] := List.map_append
  have all := forall_isApplied applied
  have broken : last.attempt.outcome.isApplied = false := by
    rw [attempt_of_error failed]
    rfl
  have found : (report e rules.length (front ++ [last]) timestamp).failure? =
      some last.attempt := by
    have clear : (front.map attempt).find? (!·.outcome.isApplied) = none := by
      refine List.find?_eq_none.mpr fun a member => ?_
      simp [all a member]
    rw [Report.failure?, entries, List.find?_append, clear]
    simp [broken]
  have unfailed : (report e rules.length (front ++ [last]) timestamp).failure? ≠ none := by
    simp [found]
  exact {
    placed := course.attempt_placed
    applied := by
      rw [entries, List.dropLast_concat]
      exact all
    tallies := course.attempt_coherent
    done_iff := by
      constructor
      · intro done
        exact absurd done undone
      · rintro ⟨_, every⟩
        rw [every last.attempt (entries ▸ List.mem_append_right _ (List.mem_singleton_self _))]
          at broken
        cases broken
    failed := by
      have shown := (report e rules.length (front ++ [last]) timestamp).verdict_suffix_text
      rw [stopped, ← position] at shown
      refine fun _ => ⟨last.attempt, fault.message, fault.path?, by simp [entries], ?_, ?_, found,
        ?_⟩
      · rw [attempt_of_error failed]
      · rw [stopped, attempt_of_error failed, position]
      · rw [attempt_of_error failed]
        exact shown
    total := rfl
    counted := by
      have shorter := course.length_le
      have skipped : last.attempt.outcome.tally? = none := by
        rw [attempt_of_error failed]
        rfl
      have tallied : ((front.map attempt ++ [last.attempt]).filterMap
          (·.outcome.tally?)).length = front.length := by
        simp only [List.filterMap_append, List.filterMap_cons, skipped, List.filterMap_nil,
          List.append_nil, List.filterMap_map, List.filterMap_length_eq_length]
        exact fun v member => (applied v member).isSome_tally?
      rw [if_neg undone]
      rw [List.length_append, List.length_singleton] at shorter
      simp only [report, Report.assemble, Report.summarize, List.map_append, List.map_cons,
        List.map_nil, tallied, List.length_append, List.length_map, List.length_singleton]
      omega
    changed := (Tally.changed_foldl_add _ _).trans (Nat.zero_add _)
    replacements := (Tally.replacements_foldl_add _ _).trans (Nat.zero_add _)
    passed := ⟨fun passed => absurd passed unpassed, fun done => absurd done undone⟩
    failure := ⟨fun none_found => absurd none_found unfailed, fun done => absurd done undone⟩
    exitCode := by rw [if_neg undone, Report.exitCode, if_neg unpassed]
    text := Report.passed_suffix_text_iff _ (Or.inr ⟨_, _, stopped⟩) }

theorem Course.report_coherent (e : Editor) (course : Course 0 rules verdicts)
    (timestamp : String) : (report e rules.length verdicts timestamp).Coherent rules := by
  rcases course.ending with ⟨length, applied⟩ | ⟨front, last, fault, rfl, applied, failed⟩
  · exact course.report_of_done e length applied timestamp
  · exact course.report_of_failed e applied failed timestamp

/-- A run that has taken its course has come to an end. -/
theorem Course.isTerminal (course : Course 0 rules verdicts) :
    (progress rules.length verdicts).isTerminal := by
  rcases course.ending with ⟨length, applied⟩ | ⟨front, last, fault, rfl, applied, failed⟩
  · rw [course.progress_done length applied]
    rfl
  · rw [(course.progress_failed applied failed).2]
    rfl

end Verdict

namespace Run

/-- The run as it was before the turn at a position. -/
def upTo (r : Run) (k : Nat) : Run := { r with turns := r.turns.take k }

/-- What an observer is told until all is over; nothing if there is no run. -/
def told (timestamp : String) : Except Fault Run → List Notice
  | .ok r => r.notices timestamp
  | .error _ => []

structure Coherent (r : Run) (timestamp : String) : Prop where
  /-- Each turn is that of the rule which the run has come to, and this is one of its rules. -/
  led : ∀ k (turn : Turn), r.turns[k]? = some turn →
    (r.upTo k).progress.runningIndex? = some k ∧ r.rulebook.rules[k]? = some turn.rule
  ended : r.progress.isTerminal
  /-- The notices are those of the attempts, one after another, and one that all is over. -/
  notices : ∃ blocks, List.Forall₂ Notice.Tells blocks (r.report timestamp).attempts ∧
    r.notices timestamp = blocks.flatten ++ [.finished (r.report timestamp)]
  report : (r.report timestamp).Coherent r.rulebook.rules

theorem coherent_of_course {r : Run}
    (course : Verdict.Course 0 r.rulebook.rules (r.turns.map Turn.verdict)) (timestamp : String) :
    r.Coherent timestamp where
  led := by
    intro k turn here
    obtain ⟨inside, _⟩ := List.getElem?_eq_some_iff.mp here
    have come := course.progress_take (k := k) (by rwa [List.length_map])
    have placed := course.placed (k := k) (v := turn.verdict) (by simp [here])
    rw [← List.map_take] at come
    refine ⟨?_, placed.2⟩
    rw [progress_eq]
    exact congrArg Progress.runningIndex? come
  ended := by
    rw [progress_eq]
    exact course.isTerminal
  notices := by
    refine ⟨(r.turns.map Turn.verdict).map Verdict.notices, ?_, ?_⟩
    · rw [report_eq]
      exact Verdict.forall₂_tells _
    · rw [notices_eq, List.flatMap_def]
  report := by
    rw [report_eq]
    exact course.report_coherent r.editor timestamp

end Run

namespace Editor

variable {e : Editor} {schedule : Schedule} {book : Rulebook} {w final : Workspace}

theorem run_of_folder (e : Editor) (schedule : Schedule) (book : Rulebook)
    (rooted : w.disk.isFolder e.root) :
    e.run schedule book w =
      (.ok ⟨e, book, (e.takeTurns schedule book.extensions 0 book.rules w.discard).1⟩,
        (e.takeTurns schedule book.extensions 0 book.rules w.discard).2) := by
  simp [Editor.run, Scan.ensureRoot, rooted]

theorem coherent_of_run {r : Run} (ran : e.run schedule book w = (.ok r, final))
    (timestamp : String) : r.Coherent timestamp := by
  by_cases rooted : w.disk.isFolder e.root
  · rw [run_of_folder e schedule book rooted, Prod.mk.injEq, Except.ok.injEq] at ran
    obtain ⟨rfl, rfl⟩ := ran
    exact Run.coherent_of_course (e.takeTurns_course schedule book.extensions 0 book.rules _) _
  · rw [run_of_no_root schedule book (by simpa using rooted)] at ran
    simp at ran

/-- Without a root there is no run, and nobody is told of one and nothing changes. Otherwise the run
ends, whatever the disk, the rules and the mode, and all that is known of it agrees. -/
theorem run_coherent (e : Editor) (schedule : Schedule) (book : Rulebook) (w : Workspace)
    (timestamp : String) :
    (w.disk.isFolder e.root = false ∧
      e.run schedule book w = (.error (.rootMissing e.root), w) ∧
      Run.told timestamp (e.run schedule book w).1 = []) ∨
    (w.disk.isFolder e.root = true ∧
      ∃ r final, e.run schedule book w = (.ok r, final) ∧ r.editor = e ∧ r.rulebook = book ∧
        r.Coherent timestamp) := by
  cases rooted : w.disk.isFolder e.root with
  | false =>
    have missing := run_of_no_root (w := w) schedule book rooted
    exact Or.inl ⟨rfl, missing, by rw [missing]; rfl⟩
  | true =>
    have begun := run_of_folder e schedule book rooted
    exact Or.inr ⟨rfl, _, _, begun, rfl, rfl, coherent_of_run begun timestamp⟩

end Editor

end Codemod
