import Codemod.Proofs.Rule.Occurrence
import Codemod.Text.Measure

/-! Which occurrences a rule replaces. There is one way only to take a text apart so that the pattern
stands behind every part but the last, never begins earlier than that, and is not found in the last
part. The segments of the text are these parts. Counting and replacing both go by the segments, so
they meet the same occurrences, and what is put in their place is not searched again. -/
namespace Codemod.Rule

variable {pattern text rest s last last' : List Char} {front front' : List (List Char)} {c : Char}

/-- The parts one after another, with `glue` behind each but the last. -/
def glued (glue : List Char) (front : List (List Char)) (last : List Char) : List Char :=
  front.flatMap (· ++ glue) ++ last

@[simp] theorem glued_nil (glue last : List Char) : glued glue [] last = last := rfl

@[simp] theorem glued_cons (glue s : List Char) (front : List (List Char)) (last : List Char) :
    glued glue (s :: front) last = s ++ glue ++ glued glue front last := by
  simp [glued]

/-- In `s` with the pattern behind it, the pattern is found only at the end. -/
def OnlyAtEnd (pattern s : List Char) : Prop :=
  ∀ before after, s ++ pattern = before ++ pattern ++ after → after = []

/-- The text is taken apart at the leftmost occurrences of the pattern that do not overlap. -/
structure Leftmost (pattern text : List Char) (front : List (List Char)) (last : List Char) :
    Prop where
  whole : text = glued pattern front last
  first : ∀ s ∈ front, OnlyAtEnd pattern s
  clear : ¬pattern <:+: last

namespace Leftmost

theorem eq_of_prefix_append {s' : List Char} (onlyAtEnd : OnlyAtEnd pattern s')
    (inside : s ++ pattern <+: s' ++ pattern) : s' = s := by
  obtain ⟨after, split⟩ := inside
  have none_left := onlyAtEnd s after split.symm
  rw [none_left, List.append_nil] at split
  exact (List.append_cancel_right split).symm

/-- Of two parts of a text behind which the pattern ends for the first time, neither is shorter. -/
theorem eq_of_onlyAtEnd {s' rest' : List Char} (here : OnlyAtEnd pattern s)
    (here' : OnlyAtEnd pattern s') (same : s ++ pattern ++ rest = s' ++ pattern ++ rest') :
    s' = s := by
  have front : s ++ pattern <+: s' ++ pattern ++ rest' := same ▸ List.prefix_append _ _
  rcases List.prefix_or_prefix_of_prefix front (List.prefix_append _ rest') with inside | inside
  · exact eq_of_prefix_append here' inside
  · exact (eq_of_prefix_append here inside).symm

theorem infix_glued (front : List (List Char)) (s last : List Char) :
    pattern <:+: glued pattern (s :: front) last :=
  ⟨s, glued pattern front last, by simp⟩

theorem unique (parts : Leftmost pattern text front last)
    (parts' : Leftmost pattern text front' last') : front' = front ∧ last' = last := by
  induction front generalizing text front' with
  | nil =>
    cases front' with
    | nil => exact ⟨rfl, parts'.whole.symm.trans parts.whole⟩
    | cons s' front' =>
      refine absurd ?_ parts.clear
      rw [← glued_nil pattern last, ← parts.whole, parts'.whole]
      exact infix_glued front' s' last'
  | cons s front ih =>
    cases front' with
    | nil =>
      refine absurd ?_ parts'.clear
      rw [← glued_nil pattern last', ← parts'.whole, parts.whole]
      exact infix_glued front s last
    | cons s' front' =>
      obtain ⟨here, later⟩ := List.forall_mem_cons.mp parts.first
      obtain ⟨here', later'⟩ := List.forall_mem_cons.mp parts'.first
      have same := parts.whole.symm.trans parts'.whole
      rw [glued_cons, glued_cons] at same
      obtain rfl := eq_of_onlyAtEnd here here' same
      obtain ⟨rfl, rfl⟩ := ih ⟨rfl, later, parts.clear⟩
        ⟨List.append_cancel_left same, later', parts'.clear⟩
      exact ⟨rfl, rfl⟩

theorem nil (some_pattern : pattern ≠ []) : Leftmost pattern [] [] [] :=
  ⟨rfl, by simp, by simpa using some_pattern⟩

/-- Where the text begins with the pattern, the first part is empty. -/
theorem of_pattern (parts : Leftmost pattern rest front last) :
    Leftmost pattern (pattern ++ rest) ([] :: front) last where
  whole := by simp [parts.whole]
  first := by
    refine List.forall_mem_cons.mpr ⟨fun before after split => ?_, parts.first⟩
    have lengths := congrArg List.length split
    simp only [List.nil_append, List.length_append] at lengths
    exact List.eq_nil_of_length_eq_zero (by omega)
  clear := parts.clear

/-- Elsewhere the first character belongs to the first part, which is the last if it is the only
one. -/
theorem of_char (absent : ¬pattern <+: c :: rest) (parts : Leftmost pattern rest front last) :
    ∃ front' last', extend c (front ++ [last]) = front' ++ [last'] ∧
      Leftmost pattern (c :: rest) front' last' := by
  cases front with
  | nil =>
    refine ⟨[], c :: last, rfl, by simp [parts.whole], by simp, ?_⟩
    rw [List.infix_cons_iff, not_or]
    exact ⟨by simpa [parts.whole] using absent, parts.clear⟩
  | cons s front =>
    obtain ⟨here, later⟩ := List.forall_mem_cons.mp parts.first
    have whole : c :: rest = glued pattern ((c :: s) :: front) last := by simp [parts.whole]
    have onlyAtEnd : OnlyAtEnd pattern (c :: s) := by
      intro before after split
      cases before with
      | nil =>
        refine absurd ?_ absent
        rw [whole, glued_cons, split]
        exact ⟨after ++ glued pattern front last, by simp⟩
      | cons b before =>
        rw [List.cons_append, List.cons_append, List.cons_append] at split
        exact here before after (List.cons.inj split).2
    exact ⟨(c :: s) :: front, last, rfl, whole, List.forall_mem_cons.mpr ⟨onlyAtEnd, later⟩,
      parts.clear⟩

end Leftmost

theorem segmentsFrom_eq_drop (pattern : List Char) (skip : Nat) (text : List Char) :
    segmentsFrom pattern skip text = segments pattern (text.drop skip) := by
  induction text generalizing skip with
  | nil => simp [segments, segmentsFrom]
  | cons c rest ih =>
    cases skip with
    | zero => rfl
    | succ skip => exact ih skip

theorem segments_append (some_pattern : pattern ≠ []) (rest : List Char) :
    segments pattern (pattern ++ rest) = [] :: segments pattern rest := by
  obtain ⟨c, more, rfl⟩ := List.exists_cons_of_ne_nil some_pattern
  have here : (c :: more).isPrefixOf (c :: (more ++ rest)) = true :=
    List.isPrefixOf_iff_prefix.mpr ⟨rest, rfl⟩
  rw [List.cons_append, segments, segmentsFrom, if_pos here, segmentsFrom_eq_drop]
  simp

theorem segments_cons (absent : ¬pattern <+: c :: rest) :
    segments pattern (c :: rest) = extend c (segments pattern rest) := by
  have elsewhere : ¬pattern.isPrefixOf (c :: rest) = true := fun front =>
    absent (List.isPrefixOf_iff_prefix.mp front)
  rw [segments, segmentsFrom, if_neg elsewhere, segments]

/-- The segments of a text are its parts at the leftmost occurrences. -/
theorem exists_leftmost (some_pattern : pattern ≠ []) (text : List Char) :
    ∃ front last, segments pattern text = front ++ [last] ∧ Leftmost pattern text front last := by
  -- An occurrence is passed over whole, so that what is left is shorter by more than a character.
  induction length : text.length using Nat.strongRecOn generalizing text with
  | ind n ih =>
    subst length
    cases text with
    | nil => exact ⟨[], [], rfl, .nil some_pattern⟩
    | cons c rest =>
      by_cases here : pattern <+: c :: rest
      · obtain ⟨behind, split⟩ := here
        have shorter : behind.length < (c :: rest).length := by
          have positive := List.length_pos_iff.mpr some_pattern
          rw [← split, List.length_append]
          omega
        obtain ⟨front, last, segmented, parts⟩ := ih _ shorter behind rfl
        rw [← split, segments_append some_pattern, segmented]
        exact ⟨[] :: front, last, rfl, parts.of_pattern⟩
      · obtain ⟨front, last, segmented, parts⟩ := ih _ (Nat.lt_succ_self _) rest rfl
        rw [segments_cons here, segmented]
        exact parts.of_char here

theorem intercalate_concat (glue : List Char) (front : List (List Char)) (last : List Char) :
    glue.intercalate (front ++ [last]) = glued glue front last := by
  induction front with
  | nil => simp
  | cons s front ih =>
    rw [List.cons_append, List.intercalate_cons_of_ne_nil (by simp), ih, glued_cons]

/-- Every part has the glue behind it once, in whatever unit lengths are measured. -/
theorem measure_glued (measure : List Char → Nat)
    (adds : ∀ xs ys, measure (xs ++ ys) = measure xs + measure ys) (glue other : List Char)
    (front : List (List Char)) (last : List Char) :
    measure (glued glue front last) + front.length * measure other =
      measure (glued other front last) + front.length * measure glue := by
  induction front with
  | nil => simp
  | cons s front ih =>
    simp only [glued_cons, adds, List.length_cons, Nat.add_mul, Nat.one_mul]
    omega

/-- A rule with a pattern finds the leftmost occurrences that do not overlap, and no others: there is
one way to take the text apart at such occurrences, their number is the count, and what the rule
makes of the text are the same parts with the replacement between them. -/
theorem replaceIn?_leftmost {r : Rule} (valid : r.isValid) (text : String) :
    ∃ front last, Leftmost r.pattern.toList text.toList front last ∧
      (∀ front' last', Leftmost r.pattern.toList text.toList front' last' →
        front' = front ∧ last' = last) ∧
      r.count text = front.length ∧
      (r.replaceIn? text = none ↔ front.length = 0) ∧
      (front.length = 0 ↔ ¬r.pattern.toList <:+: text.toList) ∧
      (front.length ≠ 0 → ∃ updated, r.replaceIn? text = some (updated, front.length) ∧
        updated.toList = glued r.replacement.toList front last ∧
        updated.length + front.length * r.pattern.length =
          text.length + front.length * r.replacement.length ∧
        Text.byteLength updated.toList + front.length * Text.byteLength r.pattern.toList =
          Text.byteLength text.toList + front.length * Text.byteLength r.replacement.toList) := by
  have some_pattern : r.pattern.toList ≠ [] := by simpa [isValid] using valid
  obtain ⟨front, last, segmented, parts⟩ := exists_leftmost some_pattern text.toList
  have counted : r.count text = front.length := by simp [count, valid, segmented]
  have found : r.count text ≠ 0 ↔ r.pattern.toList <:+: text.toList := by
    rw [count_ne_zero_iff, Matches, and_iff_right (by simpa using some_pattern)]
  have replaced : r.replaceIn? text = if front.length = 0 then none
      else some (String.ofList (glued r.replacement.toList front last), front.length) := by
    rw [replaceIn?, counted, segmented, intercalate_concat]
  refine ⟨front, last, parts, fun _ _ => parts.unique, counted, ?_, ?_, fun some_found => ?_⟩
  · rw [replaced]
    split <;> simp_all
  · rw [← counted, ← found, Decidable.not_not]
  · rw [replaced, if_neg some_found]
    refine ⟨_, rfl, String.toList_ofList, ?_, ?_⟩
    · have lengths := measure_glued List.length (fun _ _ => List.length_append)
        r.replacement.toList r.pattern.toList front last
      rw [← parts.whole] at lengths
      simpa only [String.length_toList, String.length_ofList] using lengths
    · rw [String.toList_ofList, parts.whole]
      exact measure_glued Text.byteLength Text.byteLength_append _ _ front last

theorem replaceIn?_leftmost_overlapping :
    ∃ front last, Leftmost ['a', 'a'] "aaaaa".toList front last ∧ front.length = 2 ∧
      replaceIn? ⟨"aa", "aaa"⟩ "aaaaa" = some ("aaaaaaa", 2) := by
  obtain ⟨front, last, parts, _, counted, _⟩ :=
    replaceIn?_leftmost (r := ⟨"aa", "aaa"⟩) (by decide +kernel) "aaaaa"
  exact ⟨front, last, parts, counted.symm.trans (by decide +kernel), by decide +kernel⟩

end Codemod.Rule
