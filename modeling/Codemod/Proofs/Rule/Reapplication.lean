import Codemod.Proofs.Rule.Removal
import Mathlib.Logic.Function.Iterate

/-! Applying a rule to what it has made. If the replacement can have no part in an occurrence of the
pattern then nothing is left to find: an occurrence would stand in a part that was kept, or reach
into a replacement. If the replacement contains the pattern then every replacement offers an
occurrence of its own, so the rule finds as many as before, whatever else the text offers. -/
namespace Codemod.Rule

variable {pattern replacement : List Char}

/-- A replacement that can be no part of an occurrence: neither text is within the other, and
nothing with which the pattern begins or ends stands at the edge of the replacement where the rest
of the pattern could follow or precede it. -/
structure Inert (pattern replacement : List Char) : Prop where
  some_text : replacement ≠ []
  not_within : ¬pattern <:+: replacement
  not_around : ¬replacement <:+: pattern
  not_begun : ∀ part, part ≠ [] → part ≠ pattern → part <+: pattern → ¬part <:+ replacement
  not_ended : ∀ part, part ≠ [] → part ≠ pattern → part <:+ pattern → ¬part <+: replacement

instance (pattern replacement : List Char) : Decidable (Inert pattern replacement) :=
  decidable_of_iff (replacement ≠ [] ∧ ¬pattern <:+: replacement ∧ ¬replacement <:+: pattern ∧
      (∀ part ∈ pattern.inits, part ≠ [] → part ≠ pattern → ¬part <:+ replacement) ∧
      ∀ part ∈ pattern.tails, part ≠ [] → part ≠ pattern → ¬part <+: replacement) <| by
    simp only [List.mem_inits, List.mem_tails]
    constructor
    · rintro ⟨some_text, not_within, not_around, not_begun, not_ended⟩
      exact ⟨some_text, not_within, not_around,
        fun part some_part proper begins => not_begun part begins some_part proper,
        fun part some_part proper ends => not_ended part ends some_part proper⟩
    · rintro ⟨some_text, not_within, not_around, not_begun, not_ended⟩
      exact ⟨some_text, not_within, not_around,
        fun part begins some_part proper => not_begun part some_part proper begins,
        fun part ends some_part proper => not_ended part some_part proper ends⟩

/-- An inert replacement has no share in the pattern for which it stands. -/
theorem Inert.spares (inert : Inert pattern replacement) :
    Spares pattern pattern replacement where
  not_within := inert.not_within
  not_around := inert.not_around
  not_begun := inert.not_begun
  shared part some_part proper ends begins :=
    absurd begins (inert.not_ended part some_part proper ends)

/-- Where the replacement contains the pattern, each replacement in a text can be read as an
occurrence. -/
theorem exists_glued_of_contains (contains : pattern <:+: replacement) (before : List Char)
    (front : List (List Char)) (last : List Char) :
    ∃ front' last', before ++ glued replacement front last = glued pattern front' last' ∧
      front'.length = front.length := by
  obtain ⟨begun, ended, rfl⟩ := contains
  induction front generalizing before with
  | nil => exact ⟨[], before ++ last, rfl, rfl⟩
  | cons s front ih =>
    obtain ⟨front', last', others, length⟩ := ih ended
    refine ⟨(before ++ s ++ begun) :: front', last', ?_, by simp [length]⟩
    rw [glued_cons, glued_cons, ← others]
    simp only [List.append_assoc]

variable {r : Rule} {text updated : String} {n : Nat}

theorem replaceIn?_eq_none_of_inert (inert : Inert r.pattern.toList r.replacement.toList)
    (applied : r.replaceIn? text = some (updated, n)) : r.replaceIn? updated = none := by
  have made : r.replaceIn text = updated := by simp [replaceIn, applied]
  refine replaceIn?_of_count_eq_zero (Decidable.not_not.mp fun present => ?_)
  have found := ((count_ne_zero_iff r updated).mp present).2
  rw [← made] at found
  exact pattern_not_infix_replaceIn inert.spares text found

/-- A rule whose replacement contains its pattern finds no less in what it has made. -/
theorem count_le_count_replaceIn (contains : r.pattern.toList <:+: r.replacement.toList)
    (text : String) : r.count text ≤ r.count (r.replaceIn text) := by
  by_cases absent : r.count text = 0
  · rw [absent]
    exact Nat.zero_le _
  · obtain ⟨valid, front, last, _, length, made⟩ :=
      leftmost_of_replaceIn? (replaceIn?_of_count_ne_zero absent)
    have some_pattern : r.pattern.toList ≠ [] := by simpa [isValid] using valid
    obtain ⟨front', last', same, length'⟩ := exists_glued_of_contains contains [] front last
    rw [List.nil_append, ← made] at same
    obtain ⟨positions, chosen, card⟩ := Packing.exists_of_glued some_pattern front' last'
    rw [← same] at chosen
    have most := (isGreatest_count valid (r.replaceIn text)).2 ⟨positions, chosen, card⟩
    rwa [length', length] at most

theorem count_le_count_iterate (contains : r.pattern.toList <:+: r.replacement.toList)
    (text : String) (times : Nat) : r.count text ≤ r.count (r.replaceIn^[times] text) := by
  induction times with
  | zero => exact Nat.le_refl _
  | succ times ih =>
    rw [Function.iterate_succ_apply']
    exact Nat.le_trans ih (count_le_count_replaceIn contains _)

/-- A rule that has matched finds nothing in what it made if its replacement is inert, and at least
as much on every later application if its replacement contains the pattern. What it counts are as
many occurrences as a text can have without overlaps. -/
theorem replaceIn?_again (valid : r.isValid) :
    (∀ text, IsGreatest {n | ∃ positions, Packing r.pattern.toList text.toList positions ∧
      positions.card = n} (r.count text)) ∧
    ∀ text updated n, r.replaceIn? text = some (updated, n) →
      n = r.count text ∧
      (Inert r.pattern.toList r.replacement.toList →
        r.replaceIn? updated = none ∧ r.replaceIn (r.replaceIn text) = r.replaceIn text) ∧
      (r.pattern.toList <:+: r.replacement.toList →
        (∃ again m, r.replaceIn? updated = some (again, m) ∧ n ≤ m) ∧
        ∀ times, ∃ again m, r.replaceIn? (r.replaceIn^[times] text) = some (again, m) ∧ n ≤ m) := by
  refine ⟨isGreatest_count valid, fun text updated n applied => ?_⟩
  have present : r.count text ≠ 0 := fun absent => by
    simp [replaceIn?_of_count_eq_zero absent] at applied
  obtain ⟨rfl, rfl⟩ : r.replaceIn text = updated ∧ r.count text = n := by
    simpa [replaceIn?_of_count_ne_zero present] using applied
  refine ⟨rfl, fun inert => ?_, fun contains => ?_⟩
  · have nothing := replaceIn?_eq_none_of_inert inert applied
    exact ⟨nothing, by rw [replaceIn, nothing, Option.map_none, Option.getD_none]⟩
  · have later (times : Nat) : ∃ again m, r.replaceIn? (r.replaceIn^[times] text) =
        some (again, m) ∧ r.count text ≤ m := by
      have more := count_le_count_iterate contains text times
      exact ⟨_, _, replaceIn?_of_count_ne_zero (by omega), more⟩
    exact ⟨later 1, later⟩

/-- A replacement that contains its pattern, which overlaps with itself, and one that is inert. -/
theorem replaceIn?_again_overlapping :
    (∃ again m, replaceIn? ⟨"aa", "aaa"⟩ "aaaaaaa" = some (again, m) ∧ 2 ≤ m) ∧
      replaceIn? ⟨"aba", "cd"⟩ "bcdcdba" = none := by
  have growing := (replaceIn?_again (r := ⟨"aa", "aaa"⟩) (by decide +kernel)).2 "aaaaa" "aaaaaaa" 2
    (by decide +kernel)
  have settled := (replaceIn?_again (r := ⟨"aba", "cd"⟩) (by decide +kernel)).2 "babaababa"
    "bcdcdba" 2 (by decide +kernel)
  exact ⟨(growing.2.2 (by decide +kernel)).1, (settled.2.1 (by decide +kernel)).1⟩

end Codemod.Rule
