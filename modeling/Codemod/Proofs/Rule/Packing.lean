import Codemod.Proofs.Rule.Leftmost
import Mathlib.Data.Finset.Card
import Mathlib.Data.Finset.Image
import Mathlib.Order.Bounds.Defs

/-! The count of a rule against all other ways to choose occurrences. Any positions at which the
pattern stands without overlaps are at most as many as the leftmost occurrences, even if the pattern
overlaps with itself, and the leftmost occurrences are such a choice. -/
namespace Codemod.Rule

variable {pattern text rest s last : List Char} {front : List (List Char)} {positions : Finset Nat}

/-- The pattern stands in the text at each of the positions, and no two of these occurrences
overlap. -/
structure Packing (pattern text : List Char) (positions : Finset Nat) : Prop where
  stands : ∀ i ∈ positions, pattern <+: text.drop i
  apart : ∀ i ∈ positions, ∀ j ∈ positions, i < j → i + pattern.length ≤ j

namespace Packing

/-- The positions from `k` on, as they are counted in what the text has from there. -/
def after (k : Nat) (positions : Finset Nat) : Finset Nat :=
  (positions.filter (k ≤ ·)).image (· - k)

theorem mem_after {k i : Nat} : i ∈ after k positions ↔ k + i ∈ positions := by
  simp only [after, Finset.mem_image, Finset.mem_filter]
  constructor
  · rintro ⟨j, ⟨member, above⟩, rfl⟩
    rwa [Nat.add_sub_cancel' above]
  · intro member
    exact ⟨k + i, ⟨member, Nat.le_add_right k i⟩, Nat.add_sub_cancel_left k i⟩

theorem drop (chosen : Packing pattern text positions) (k : Nat) :
    Packing pattern (text.drop k) (after k positions) where
  stands i member := by
    rw [List.drop_drop]
    exact chosen.stands (k + i) (mem_after.mp member)
  apart i first j second before := by
    have := chosen.apart (k + i) (mem_after.mp first) (k + j) (mem_after.mp second) (by omega)
    omega

/-- Of positions below `k` that lie within one pattern length there is one at most. -/
theorem card_le_succ_after (chosen : Packing pattern text positions) (start k : Nat)
    (near : k ≤ start + pattern.length) (none_before : ∀ i ∈ positions, start ≤ i) :
    positions.card ≤ (after k positions).card + 1 := by
  have later : (after k positions).card = (positions.filter (k ≤ ·)).card := by
    refine Finset.card_image_of_injOn fun i first j second same => ?_
    have := (Finset.mem_filter.mp first).2
    have := (Finset.mem_filter.mp second).2
    omega
  have earlier : (positions.filter (¬k ≤ ·)).card ≤ 1 := by
    refine Finset.card_le_one.mpr fun i first j second => ?_
    obtain ⟨inside, below⟩ := Finset.mem_filter.mp first
    obtain ⟨inside', below'⟩ := Finset.mem_filter.mp second
    have := none_before i inside
    have := none_before j inside'
    have := chosen.apart i inside j inside'
    have := chosen.apart j inside' i inside
    omega
  have split := Finset.card_filter_add_card_filter_not (s := positions) (k ≤ ·)
  omega

theorem eq_empty_of_clear (chosen : Packing pattern text positions) (clear : ¬pattern <:+: text) :
    positions = ∅ :=
  Finset.eq_empty_of_forall_notMem fun i member =>
    clear ((chosen.stands i member).isInfix.trans (List.drop_suffix i text).isInfix)

/-- No occurrence begins before the first of the leftmost ones. -/
theorem start_le (chosen : Packing pattern (s ++ pattern ++ rest) positions)
    (onlyAtEnd : OnlyAtEnd pattern s) {i : Nat} (member : i ∈ positions) : s.length ≤ i := by
  by_contra early
  obtain ⟨behind, stands⟩ := chosen.stands i member
  have inside : i ≤ (s ++ pattern).length := by simp only [List.length_append]; omega
  rw [List.drop_append_of_le_length inside] at stands
  -- The occurrence ends before the first leftmost one does, so it stands in `s` with the pattern
  -- behind it, and not at the end.
  have front : pattern <+: (s ++ pattern).drop i := by
    refine List.prefix_of_prefix_length_le ⟨behind, stands⟩ (List.prefix_append _ _) ?_
    simp only [List.length_drop, List.length_append]
    omega
  obtain ⟨after, ends⟩ := front
  have none_left := onlyAtEnd ((s ++ pattern).take i) after (by
    rw [List.append_assoc, ends, List.take_append_drop])
  rw [none_left, List.append_nil] at ends
  have lengths := congrArg List.length ends
  simp only [List.length_drop, List.length_append] at lengths
  omega

/-- No choice of occurrences has more of them than the leftmost one. -/
theorem card_le (chosen : Packing pattern text positions)
    (parts : Leftmost pattern text front last) : positions.card ≤ front.length := by
  -- What lies behind the first leftmost occurrence loses one of the chosen ones at most.
  induction front generalizing text positions with
  | nil =>
    have clear : ¬pattern <:+: text := by
      rw [parts.whole, glued_nil]
      exact parts.clear
    simp [chosen.eq_empty_of_clear clear]
  | cons s front ih =>
    obtain ⟨here, later⟩ := List.forall_mem_cons.mp parts.first
    obtain rfl := parts.whole
    rw [glued_cons] at chosen
    have dropped := chosen.drop (s ++ pattern).length
    rw [List.drop_left] at dropped
    have others := ih dropped ⟨rfl, later, parts.clear⟩
    have one_more := chosen.card_le_succ_after s.length (s ++ pattern).length
      (by simp) fun i member => chosen.start_le here member
    rw [List.length_cons]
    omega

/-- Where a text is put together with the pattern, the pattern stands behind each part. -/
theorem exists_of_glued (some_pattern : pattern ≠ []) (front : List (List Char))
    (last : List Char) :
    ∃ positions, Packing pattern (glued pattern front last) positions ∧
      positions.card = front.length := by
  induction front with
  | nil => exact ⟨∅, ⟨by simp, by simp⟩, rfl⟩
  | cons s front ih =>
    obtain ⟨positions, chosen, card⟩ := ih
    have positive := List.length_pos_iff.mpr some_pattern
    have shifted {i : Nat} (member : i ∈ positions.image ((s ++ pattern).length + ·)) :
        ∃ j ∈ positions, s.length + pattern.length + j = i := by
      simpa only [Finset.mem_image, List.length_append] using member
    have fresh : s.length ∉ positions.image ((s ++ pattern).length + ·) := fun member => by
      obtain ⟨j, _, same⟩ := shifted member
      omega
    refine ⟨insert s.length (positions.image ((s ++ pattern).length + ·)), ⟨?_, ?_⟩, ?_⟩
    · intro i member
      rcases Finset.mem_insert.mp member with rfl | member
      · simp [List.append_assoc]
      · obtain ⟨j, inside, rfl⟩ := shifted member
        rw [glued_cons, ← List.length_append, ← List.drop_drop, List.drop_left]
        exact chosen.stands j inside
    · intro i first j second before
      rcases Finset.mem_insert.mp first with rfl | first <;>
        rcases Finset.mem_insert.mp second with rfl | second
      · omega
      · obtain ⟨j, _, rfl⟩ := shifted second
        omega
      · obtain ⟨i, _, rfl⟩ := shifted first
        omega
      · obtain ⟨i, inside, rfl⟩ := shifted first
        obtain ⟨j, inside', rfl⟩ := shifted second
        have := chosen.apart i inside j inside' (by omega)
        omega
    · rw [Finset.card_insert_of_notMem fresh, List.length_cons,
        Finset.card_image_of_injective _ (fun _ _ same => Nat.add_left_cancel same), card]

end Packing

theorem count_of_leftmost {r : Rule} {text : String} (valid : r.isValid)
    (parts : Leftmost r.pattern.toList text.toList front last) : r.count text = front.length := by
  have some_pattern : r.pattern.toList ≠ [] := by simpa [isValid] using valid
  obtain ⟨front', last', segmented, parts'⟩ := exists_leftmost some_pattern text.toList
  obtain ⟨rfl, rfl⟩ := parts'.unique parts
  simp [count, valid, segmented]

/-- The count is the largest number of occurrences that do not overlap. -/
theorem isGreatest_count {r : Rule} (valid : r.isValid) (text : String) :
    IsGreatest {n | ∃ positions, Packing r.pattern.toList text.toList positions ∧
      positions.card = n} (r.count text) := by
  have some_pattern : r.pattern.toList ≠ [] := by simpa [isValid] using valid
  obtain ⟨front, last, _, parts⟩ := exists_leftmost some_pattern text.toList
  rw [count_of_leftmost valid parts]
  constructor
  · rw [parts.whole]
    exact Packing.exists_of_glued some_pattern front last
  · rintro n ⟨positions, chosen, rfl⟩
    exact chosen.card_le parts

end Codemod.Rule
