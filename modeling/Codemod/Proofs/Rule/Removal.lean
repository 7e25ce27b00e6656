import Codemod.Proofs.Rule.Packing
import Codemod.Proofs.Rule.Series

/-! Words that rules do not bring into a text. Where a word is found in what a rule has made, it
stands in a part that was kept or in a replacement, or it reaches from one into the other. If a
replacement has no share in the word but one that begins the pattern as well, then what is found was
found before the rule. So a text without the word stays without it, and the pattern of the rule
itself is gone, since what is found before an occurrence is replaced first. -/
namespace Codemod.Rule

variable {word pattern replacement xs ys last : List Char} {front : List (List Char)}

/-- What stands in two texts put together stands in one of them, or reaches from the first into the
second. -/
theorem infix_append_cases (found : word <:+: xs ++ ys) :
    word <:+: xs ∨ word <:+: ys ∨
      ∃ begun ended, begun ≠ [] ∧ ended ≠ [] ∧ word = begun ++ ended ∧ begun <:+ xs ∧
        ended <+: ys := by
  obtain ⟨before, behind, split⟩ := found
  rw [List.append_assoc] at split
  rcases List.append_eq_append_iff.mp split with ⟨more, rfl, rest⟩ | ⟨more, rfl, rfl⟩
  · rcases List.append_eq_append_iff.mp rest with ⟨tail, rfl, _⟩ | ⟨tail, rfl, rfl⟩
    · exact Or.inl ⟨before, tail, by simp⟩
    · by_cases none_begun : more = []
      · subst none_begun
        exact Or.inr (Or.inl ⟨[], behind, by simp⟩)
      · by_cases none_ended : tail = []
        · subst none_ended
          exact Or.inl ⟨before, [], by simp⟩
        · exact Or.inr (Or.inr ⟨more, tail, none_begun, none_ended, rfl, List.suffix_append _ _,
            List.prefix_append _ _⟩)
  · exact Or.inr (Or.inl ⟨more, behind, by simp⟩)

theorem ne_append_left {begun ended : List Char} (some_end : ended ≠ []) :
    begun ≠ begun ++ ended := fun same => some_end (List.self_eq_append_right.mp same)

theorem ne_append_right {begun ended : List Char} (some_begin : begun ≠ []) :
    ended ≠ begun ++ ended := fun same => some_begin (List.self_eq_append_left.mp same)

/-- A replacement with no share in the word: neither text is within the other, nothing with which
the word begins stands at the end of the replacement, and if the replacement begins with an end of
the word then so does the pattern for which it stands. -/
structure Spares (word pattern replacement : List Char) : Prop where
  not_within : ¬word <:+: replacement
  not_around : ¬replacement <:+: word
  not_begun : ∀ part, part ≠ [] → part ≠ word → part <+: word → ¬part <:+ replacement
  shared : ∀ part, part ≠ [] → part ≠ word → part <:+ word → part <+: replacement → part <+: pattern

instance (word pattern replacement : List Char) : Decidable (Spares word pattern replacement) :=
  decidable_of_iff (¬word <:+: replacement ∧ ¬replacement <:+: word ∧
      (∀ part ∈ word.inits, part ≠ [] → part ≠ word → ¬part <:+ replacement) ∧
      ∀ part ∈ word.tails, part ≠ [] → part ≠ word → part <+: replacement → part <+: pattern) <| by
    simp only [List.mem_inits, List.mem_tails]
    constructor
    · rintro ⟨not_within, not_around, not_begun, shared⟩
      exact ⟨not_within, not_around,
        fun part some_part proper begins => not_begun part begins some_part proper,
        fun part some_part proper ends => shared part ends some_part proper⟩
    · rintro ⟨not_within, not_around, not_begun, shared⟩
      exact ⟨not_within, not_around,
        fun part begins some_part proper => not_begun part some_part proper begins,
        fun part ends some_part proper => shared part some_part proper ends⟩

/-- In front of the pattern nothing of the word is found before the pattern is complete, and also
then not unless the pattern is the word. -/
def ClearBefore (word pattern s : List Char) : Prop :=
  ∀ part, part <+: pattern → part ≠ word → ¬word <:+: s ++ part

namespace Spares

theorem some_word (spares : Spares word pattern replacement) : word ≠ [] := by
  rintro rfl
  exact spares.not_within (List.nil_infix)

/-- Behind a replacement nothing new is found. -/
theorem not_infix_append (spares : Spares word pattern replacement) (clear : ¬word <:+: ys) :
    ¬word <:+: replacement ++ ys := by
  intro found
  rcases infix_append_cases found with within | later | ⟨begun, ended, some_begin, some_end, rfl,
    ends_with, _⟩
  · exact spares.not_within within
  · exact clear later
  · exact spares.not_begun begun some_begin (ne_append_left some_end) (List.prefix_append _ _)
      ends_with

/-- What would be found around the front of a replacement was found around the pattern. -/
theorem not_infix_between (spares : Spares word pattern replacement)
    (clear : ClearBefore word pattern xs) (clear' : ¬word <:+: ys) :
    ¬word <:+: xs ++ (replacement ++ ys) := by
  intro found
  rcases infix_append_cases found with earlier | later | ⟨begun, ended, some_begin, some_end, rfl,
    ends_with, begins⟩
  · apply clear [] List.nil_prefix spares.some_word.symm
    rwa [List.append_nil]
  · exact spares.not_infix_append clear' later
  · have proper : ended ≠ begun ++ ended := ne_append_right some_begin
    rcases List.prefix_or_prefix_of_prefix begins (List.prefix_append replacement ys) with
      short | long
    · have shared := spares.shared ended some_end proper (List.suffix_append _ _) short
      obtain ⟨before, rfl⟩ := ends_with
      exact clear ended shared proper ⟨before, [], by simp⟩
    · exact spares.not_around (long.isInfix.trans (List.suffix_append _ _).isInfix)

theorem not_infix_glued (spares : Spares word pattern replacement)
    (clear : ∀ s ∈ front, ClearBefore word pattern s) (clear' : ¬word <:+: last) :
    ¬word <:+: glued replacement front last := by
  induction front with
  | nil => exact clear'
  | cons s front ih =>
    obtain ⟨here, others⟩ := List.forall_mem_cons.mp clear
    rw [glued_cons, List.append_assoc]
    exact spares.not_infix_between here (ih others)

end Spares

/-- A leftmost occurrence of the pattern is the first, so none is found before it is complete. -/
theorem OnlyAtEnd.clearBefore {s : List Char} (onlyAtEnd : OnlyAtEnd pattern s) :
    ClearBefore pattern pattern s := by
  rintro part ⟨rest, rfl⟩ proper ⟨before, behind, split⟩
  have none_left := onlyAtEnd before (behind ++ rest) <| by
    rw [← List.append_assoc, ← List.append_assoc, split]
  have none_rest := (List.append_eq_nil_iff.mp none_left).2
  exact proper (by rw [none_rest, List.append_nil])

theorem infix_glued_of_mem {s : List Char} (member : s ∈ front) (last : List Char) :
    s ++ pattern <:+: glued pattern front last := by
  obtain ⟨before, behind, rfl⟩ := List.append_of_mem member
  exact ⟨before.flatMap (· ++ pattern), glued pattern behind last, by simp [glued]⟩

theorem suffix_glued (front : List (List Char)) (last : List Char) :
    last <:+ glued pattern front last := List.suffix_append _ _

variable {r : Rule} {rules : List Rule} {text updated : String} {n : Nat}

/-- What a rule has made, by the leftmost occurrences in what it was applied to. -/
theorem leftmost_of_replaceIn? (applied : r.replaceIn? text = some (updated, n)) :
    r.isValid ∧ ∃ front last, Leftmost r.pattern.toList text.toList front last ∧
      front.length = n ∧ updated.toList = glued r.replacement.toList front last := by
  have present : r.count text ≠ 0 := fun absent => by
    simp [replaceIn?_of_count_eq_zero absent] at applied
  have valid : r.isValid := by
    by_contra invalid
    exact present (by simp [count, invalid])
  have some_pattern : r.pattern.toList ≠ [] := by simpa [isValid] using valid
  obtain ⟨front, last, segmented, parts⟩ := exists_leftmost some_pattern text.toList
  simp only [replaceIn?, present, if_false, segmented, intercalate_concat, Option.some.injEq,
    Prod.mk.injEq] at applied
  obtain ⟨rfl, rfl⟩ := applied
  exact ⟨valid, front, last, parts, (count_of_leftmost valid parts).symm, String.toList_ofList⟩

/-- A text without the word is without it after the rule. -/
theorem not_infix_replaceIn (spares : Spares word r.pattern.toList r.replacement.toList)
    (absent : ¬word <:+: text.toList) : ¬word <:+: (r.replaceIn text).toList := by
  by_cases unmatched : r.count text = 0
  · rwa [replaceIn_of_count_eq_zero unmatched]
  · obtain ⟨_, front, last, parts, _, made⟩ :=
      leftmost_of_replaceIn? (replaceIn?_of_count_ne_zero unmatched)
    rw [parts.whole] at absent
    rw [made]
    apply spares.not_infix_glued
    · intro s member part begins _ found
      have kept : s ++ part <:+: s ++ r.pattern.toList :=
        ((List.prefix_append_right_inj s).mpr begins).isInfix
      exact absent (found.trans (kept.trans (infix_glued_of_mem member last)))
    · intro found
      exact absent (found.trans (suffix_glued front last).isInfix)

/-- After a rule that spares its own pattern, the pattern is not found. -/
theorem pattern_not_infix_replaceIn
    (spares : Spares r.pattern.toList r.pattern.toList r.replacement.toList) (text : String) :
    ¬r.pattern.toList <:+: (r.replaceIn text).toList := by
  by_cases unmatched : r.count text = 0
  · intro found
    rw [replaceIn_of_count_eq_zero unmatched] at found
    have some_pattern : r.pattern ≠ "" := by simpa using spares.some_word
    exact (count_ne_zero_iff r text).mpr ⟨some_pattern, found⟩ unmatched
  · obtain ⟨_, front, last, parts, _, made⟩ :=
      leftmost_of_replaceIn? (replaceIn?_of_count_ne_zero unmatched)
    rw [made]
    exact spares.not_infix_glued (fun s member => (parts.first s member).clearBefore) parts.clear

theorem not_infix_replaceAll
    (spares : ∀ r ∈ rules, Spares word r.pattern.toList r.replacement.toList)
    (absent : ¬word <:+: text.toList) : ¬word <:+: (replaceAll rules text).toList := by
  induction rules generalizing text with
  | nil => exact absent
  | cons r rules ih =>
    obtain ⟨here, later⟩ := List.forall_mem_cons.mp spares
    rw [replaceAll_cons]
    exact ih later (not_infix_replaceIn here absent)

theorem replaceAll_append (before after : List Rule) (text : String) :
    replaceAll (before ++ after) text = replaceAll after (replaceAll before text) :=
  List.foldl_append

/-- Where a rule and all rules after it spare its pattern, the pattern is gone for good. -/
theorem pattern_not_infix_replaceAll {after : List Rule}
    (own : Spares r.pattern.toList r.pattern.toList r.replacement.toList)
    (spares : ∀ later ∈ after, Spares r.pattern.toList later.pattern.toList later.replacement.toList)
    (before : List Rule) (text : String) :
    ¬r.pattern.toList <:+: (replaceAll (before ++ r :: after) text).toList := by
  rw [replaceAll_append, replaceAll_cons]
  exact not_infix_replaceAll spares (pattern_not_infix_replaceIn own _)

end Codemod.Rule
