import Codemod.Progress
import Codemod.Text.Digits
import Mathlib.Data.List.Induction

/-! How far a run has come, read off the steps that were taken, in whatever order they came. What was
taken before the first start has no part in it, and neither has what came after the end. In between,
successes are counted and the first failure ends the run. -/
namespace Codemod.Progress

namespace Step

def isStart : Step → Bool
  | .start _ => true
  | .advance _ | .fail _ => false

def isAdvance : Step → Bool
  | .advance _ => true
  | .start _ | .fail _ => false

def isFail : Step → Bool
  | .fail _ => true
  | .start _ | .advance _ => false

/-- A step of a run with this many rules. -/
def Suits (total : Nat) : Step → Prop
  | .start n | .advance n => n = total
  | .fail _ => True

end Step

variable {total index : Nat} {reason : String} {state state' : Progress} {s : Step}
  {steps later later' front back : List Step}

/-- The state to which steps lead from the beginning. -/
def reached (steps : List Step) : Progress := steps.foldl after .idle

def advances (steps : List Step) : Nat := steps.countP Step.isAdvance

def Unstarted (steps : List Step) : Prop := ∀ s ∈ steps, s.isStart = false

def Unfailed (steps : List Step) : Prop := ∀ s ∈ steps, s.isFail = false

/-- What was taken after the first start. -/
def Since (steps later : List Step) : Prop :=
  ∃ before total, steps = before ++ .start total :: later ∧ Unstarted before

/-- What a state tells of all the steps that led to it, in a run with this many rules. -/
def Tells (total : Nat) (steps : List Step) : Progress → Prop
  | .idle => Unstarted steps
  | .running index => index < total ∧
      ∃ later, Since steps later ∧ Unfailed later ∧ advances later = index
  | .done => ∃ front back, Since steps (front ++ back) ∧ Unfailed front ∧ advances front = total
  | .failed index reason => index < total ∧
      ∃ front back, Since steps (front ++ .fail reason :: back) ∧ Unfailed front ∧
        advances front = index

/-- The position of a rule is one of the rules of the run. -/
def Within (total : Nat) : Progress → Prop
  | .idle | .done => True
  | .running index | .failed index _ => index < total

theorem Tells.within (told : Tells total steps state) : state.Within total := by
  cases state with
  | idle => trivial
  | running index => exact told.1
  | done => trivial
  | failed index reason => exact told.1

theorem advances_append (front back : List Step) :
    advances (front ++ back) = advances front + advances back := List.countP_append

theorem forall_concat {p : Step → Bool} (none : ∀ s' ∈ steps, p s' = false)
    (here : p s = false) : ∀ s' ∈ steps ++ [s], p s' = false :=
  List.forall_mem_append.mpr ⟨none, List.forall_mem_singleton.mpr here⟩

theorem Unfailed.concat (unfailed : Unfailed steps) (here : s.isFail = false) :
    Unfailed (steps ++ [s]) := forall_concat unfailed here

theorem Unstarted.concat (unstarted : Unstarted steps) (here : s.isStart = false) :
    Unstarted (steps ++ [s]) := forall_concat unstarted here

theorem Since.concat (since : Since steps later) (s : Step) :
    Since (steps ++ [s]) (later ++ [s]) := by
  obtain ⟨before, total, rfl, unstarted⟩ := since
  exact ⟨before, total, by simp, unstarted⟩

/-- A step adds to the history what the state after it tells. -/
theorem Tells.after (told : Tells total steps state) (suits : s.Suits total) :
    Tells total (steps ++ [s]) (state.after s) := by
  cases state with
  | idle =>
    cases s with
    | start n =>
      obtain rfl : n = total := suits
      have since : Since (steps ++ [.start n]) [] := ⟨steps, n, rfl, told⟩
      by_cases no_rules : n = 0
      · simp only [Progress.after, start, no_rules, if_true]
        exact ⟨[], [], no_rules ▸ since, by simp [Unfailed], rfl⟩
      · simp only [Progress.after, start, no_rules, if_false]
        exact ⟨Nat.pos_of_ne_zero no_rules, [], since, by simp [Unfailed], rfl⟩
    | advance n => exact told.concat rfl
    | fail reason => exact told.concat rfl
  | running index =>
    obtain ⟨inside, later, since, unfailed, counted⟩ := told
    cases s with
    | start n =>
      refine ⟨inside, later ++ [.start n], since.concat _, unfailed.concat rfl, ?_⟩
      rw [advances_append, counted]
      rfl
    | advance n =>
      obtain rfl : n = total := suits
      have counted' : advances (later ++ [.advance n]) = index + 1 := by
        rw [advances_append, counted]
        rfl
      by_cases last : n ≤ index + 1
      · simp only [Progress.after, advance, last, if_true]
        refine ⟨later ++ [.advance n], [], ?_, unfailed.concat rfl, by omega⟩
        rw [List.append_nil]
        exact since.concat _
      · simp only [Progress.after, advance, last, if_false]
        exact ⟨by omega, later ++ [.advance n], since.concat _, unfailed.concat rfl, counted'⟩
    | fail reason => exact ⟨inside, later, [], since.concat _, unfailed, counted⟩
  | done =>
    obtain ⟨front, back, since, unfailed, counted⟩ := told
    rw [after_of_isTerminal rfl]
    refine ⟨front, back ++ [s], ?_, unfailed, counted⟩
    rw [← List.append_assoc]
    exact since.concat s
  | failed index reason =>
    obtain ⟨inside, front, back, since, unfailed, counted⟩ := told
    rw [after_of_isTerminal rfl]
    refine ⟨inside, front, back ++ [s], ?_, unfailed, counted⟩
    rw [← List.cons_append, ← List.append_assoc]
    exact since.concat s

theorem tells_reached (suits : ∀ s ∈ steps, s.Suits total) : Tells total steps (reached steps) := by
  induction steps using List.reverseRecOn with
  | nil =>
    intro s member
    cases member
  | append_singleton steps s ih =>
    have before := ih fun s' member => suits s' (List.mem_append_left _ member)
    rw [reached, List.foldl_append]
    exact before.after (suits s (by simp))

/-- Where something stands for the first time is settled by the list. -/
theorem eq_of_first {p : Step → Bool} {s' : Step} {front' back' : List Step}
    (same : front ++ s :: back = front' ++ s' :: back') (none : ∀ s ∈ front, p s = false)
    (here : p s = true) (none' : ∀ s ∈ front', p s = false) (here' : p s' = true) :
    front = front' ∧ s = s' ∧ back = back' := by
  induction front generalizing front' with
  | nil =>
    cases front' with
    | nil => exact ⟨rfl, List.cons.inj same⟩
    | cons first front' =>
      obtain rfl : s = first := (List.cons.inj same).1
      rw [none' s List.mem_cons_self] at here
      cases here
  | cons first front ih =>
    obtain ⟨none_here, none_later⟩ := List.forall_mem_cons.mp none
    cases front' with
    | nil =>
      obtain rfl : first = s' := (List.cons.inj same).1
      rw [none_here] at here'
      cases here'
    | cons first' front' =>
      obtain ⟨rfl, rest⟩ := List.cons.inj same
      obtain ⟨rfl, settled⟩ := ih rest none_later (List.forall_mem_cons.mp none').2
      exact ⟨rfl, settled⟩

theorem Since.unique (since : Since steps later) (since' : Since steps later') : later = later' := by
  obtain ⟨before, total, rfl, unstarted⟩ := since
  obtain ⟨before', total', same, unstarted'⟩ := since'
  exact (eq_of_first same unstarted rfl unstarted' rfl).2.2

theorem Since.not_unstarted (since : Since steps later) : ¬Unstarted steps := by
  obtain ⟨before, total, rfl, _⟩ := since
  intro unstarted
  have started := unstarted (.start total) (by simp)
  cases started

theorem Unfailed.not_append_fail (front back : List Step) :
    ¬Unfailed (front ++ .fail reason :: back) := by
  intro unfailed
  have failed := unfailed (.fail reason) (by simp)
  cases failed

theorem Tells.idle_iff (told : Tells total steps state) : state = .idle ↔ Unstarted steps := by
  cases state with
  | idle => exact iff_of_true rfl told
  | running index =>
    obtain ⟨_, later, since, _⟩ := told
    exact iff_of_false Progress.noConfusion since.not_unstarted
  | done =>
    obtain ⟨front, back, since, _⟩ := told
    exact iff_of_false Progress.noConfusion since.not_unstarted
  | failed index reason =>
    obtain ⟨_, front, back, since, _⟩ := told
    exact iff_of_false Progress.noConfusion since.not_unstarted

theorem Tells.not_done (told : Tells total steps (.running index)) : ¬Tells total steps .done := by
  intro ended
  obtain ⟨inside, later, since, _, counted⟩ := told
  obtain ⟨front, back, since', _, counted'⟩ := ended
  obtain rfl := since.unique since'
  rw [advances_append] at counted
  omega

theorem Tells.not_failed_of_running {index' : Nat} (told : Tells total steps (.running index)) :
    ¬Tells total steps (.failed index' reason) := by
  intro ended
  obtain ⟨_, later, since, unfailed, _⟩ := told
  obtain ⟨_, front, back, since', _⟩ := ended
  obtain rfl := since.unique since'
  exact Unfailed.not_append_fail front back unfailed

/-- A run that is done had its last success before any failure. -/
theorem Tells.not_failed_of_done (told : Tells total steps .done) :
    ¬Tells total steps (.failed index reason) := by
  intro ended
  obtain ⟨front, back, since, unfailed, counted⟩ := told
  obtain ⟨inside, front', back', since', _, counted'⟩ := ended
  rcases List.append_eq_append_iff.mp (since.unique since') with ⟨more, rfl, _⟩ | ⟨more, rfl, rest⟩
  · rw [advances_append] at counted'
    omega
  · cases more with
    | nil =>
      rw [List.append_nil] at counted
      omega
    | cons first more =>
      obtain ⟨rfl, _⟩ := List.cons.inj rest
      exact Unfailed.not_append_fail front' more unfailed

theorem Tells.unique_failed {index' : Nat} {reason' : String}
    (told : Tells total steps (.failed index reason))
    (told' : Tells total steps (.failed index' reason')) : index = index' ∧ reason = reason' := by
  obtain ⟨_, front, back, since, unfailed, rfl⟩ := told
  obtain ⟨_, front', back', since', unfailed', rfl⟩ := told'
  obtain ⟨rfl, same, _⟩ := eq_of_first (since.unique since') unfailed rfl unfailed' rfl
  exact ⟨rfl, Step.fail.inj same⟩

/-- Only one state tells of the steps that were taken. -/
theorem Tells.unique (told : Tells total steps state) (told' : Tells total steps state') :
    state = state' := by
  by_cases unstarted : Unstarted steps
  · rw [told.idle_iff.mpr unstarted, told'.idle_iff.mpr unstarted]
  have begun := mt told.idle_iff.mp unstarted
  have begun' := mt told'.idle_iff.mp unstarted
  cases state with
  | idle => exact absurd rfl begun
  | running index =>
    cases state' with
    | idle => exact absurd rfl begun'
    | running index' =>
      obtain ⟨_, later, since, _, rfl⟩ := told
      obtain ⟨_, later', since', _, rfl⟩ := told'
      rw [since.unique since']
    | done => exact absurd told' told.not_done
    | failed index' reason => exact absurd told' told.not_failed_of_running
  | done =>
    cases state' with
    | idle => exact absurd rfl begun'
    | running index' => exact absurd told told'.not_done
    | done => rfl
    | failed index' reason => exact absurd told' told.not_failed_of_done
  | failed index reason =>
    cases state' with
    | idle => exact absurd rfl begun'
    | running index' => exact absurd told told'.not_failed_of_running
    | done => exact absurd told told'.not_failed_of_done
    | failed index' reason' =>
      obtain ⟨rfl, rfl⟩ := told.unique_failed told'
      rfl

theorem reached_append (front back : List Step) :
    reached (front ++ back) = back.foldl after (reached front) := List.foldl_append

theorem foldl_of_isTerminal (final : state.isTerminal) (steps : List Step) :
    steps.foldl after state = state := by
  induction steps with
  | nil => rfl
  | cons s steps ih => rw [List.foldl_cons, after_of_isTerminal final, ih]

section Words

/-! The same steps with positions of 64 bits, where the position behind the last one is missing. -/

def next? (index : Nat) : Option Nat :=
  if index + 1 < Text.unsignedLimit then some (index + 1) else none

def after? (state : Progress) : Step → Option Progress
  | .advance total =>
    match state with
    | .running index => (next? index).map fun next => if total ≤ next then .done else .running next
    | state => some state
  | s => some (state.after s)

def reached? (steps : List Step) : Option Progress := steps.foldlM after? .idle

theorem after?_eq (within : state.Within total) (fits : total < Text.unsignedLimit) (s : Step) :
    state.after? s = some (state.after s) := by
  cases s with
  | start n => rfl
  | fail reason => rfl
  | advance n =>
    cases state with
    | idle => rfl
    | done => rfl
    | failed index reason => rfl
    | running index =>
      have inside : index < total := within
      have next : next? index = some (index + 1) := if_pos (by omega)
      simp only [after?, next, Option.map_some]
      rfl

theorem reached?_eq (fits : total < Text.unsignedLimit) (suits : ∀ s ∈ steps, s.Suits total) :
    reached? steps = some (reached steps) := by
  induction steps using List.reverseRecOn with
  | nil => rfl
  | append_singleton steps s ih =>
    have earlier : ∀ s' ∈ steps, s'.Suits total := fun s' member =>
      suits s' (List.mem_append_left _ member)
    have next := after?_eq (tells_reached earlier).within fits s
    rw [reached?, List.foldlM_append, ← reached?, ih earlier, reached_append]
    simpa using next

end Words

/-- The state after any steps of a run is the one that tells of them. Steps before the first start
and steps after the end make no difference, and no position goes beyond the number of rules. -/
theorem reached_eq_iff_tells (suits : ∀ s ∈ steps, s.Suits total) :
    (∀ state, reached steps = state ↔ Tells total steps state) ∧
    (reached steps).Within total ∧
    (∀ front back, steps = front ++ back → Unstarted front → reached steps = reached back) ∧
    (∀ front back, steps = front ++ back → (reached front).isTerminal →
      reached steps = reached front) ∧
    (total < Text.unsignedLimit → reached? steps = some (reached steps)) := by
  have told := tells_reached suits
  refine ⟨fun state => ?_, told.within, ?_, ?_, fun fits => reached?_eq fits suits⟩
  · constructor
    · intro same
      exact same ▸ told
    · intro told'
      exact told.unique told'
  · rintro front back rfl unstarted
    have earlier := tells_reached fun s member => suits s (List.mem_append_left back member)
    rw [reached_append, earlier.idle_iff.mpr unstarted]
    rfl
  · rintro front back rfl final
    rw [reached_append]
    exact foldl_of_isTerminal final back

/-- Steps out of their order: before the start, a second start, and after the failure. -/
theorem reached_eq_iff_tells_disordered :
    let steps := [.fail "early", .advance 3, .start 3, .advance 3, .start 3, .fail "boom", .advance 3]
    reached steps = .failed 1 "boom" ∧ reached? steps = some (.failed 1 "boom") ∧
      reached steps = reached (steps.drop 2) ∧ reached steps = reached (steps.take 6) := by
  intro steps
  have suits : ∀ s ∈ steps, s.Suits 3 := by
    simp [steps, Step.Suits]
  have unstarted : Unstarted (steps.take 2) := by
    simp [steps, Unstarted, Step.isStart]
  obtain ⟨tells, _, front, back, words⟩ := reached_eq_iff_tells suits
  have failed : reached steps = .failed 1 "boom" :=
    (tells (.failed 1 "boom")).mpr ⟨by decide, [.advance 3, .start 3], [.advance 3],
      ⟨steps.take 2, 3, rfl, unstarted⟩, by simp [Unfailed, Step.isFail], rfl⟩
  exact ⟨failed, failed ▸ words (by decide), front (steps.take 2) _ rfl unstarted,
    back (steps.take 6) [.advance 3] rfl rfl⟩

end Codemod.Progress
