import Codemod.Rule.Basic

/-! When a rule matches. Counting finds something exactly if the pattern stands somewhere in the
text, and then, and only then, the rule makes a new text. -/
namespace Codemod.Rule

theorem one_lt_length_segmentsFrom {pattern : List Char} (some_pattern : pattern ≠ [])
    (text : List Char) : 1 < (segmentsFrom pattern 0 text).length ↔ pattern <:+: text := by
  induction text with
  | nil => simp [segmentsFrom, some_pattern]
  | cons c rest ih =>
    rw [List.infix_cons_iff, ← ih, segmentsFrom]
    by_cases here : pattern.isPrefixOf (c :: rest)
    · have more := List.length_pos_iff.mpr (segmentsFrom_ne_nil pattern (pattern.length - 1) rest)
      simp [here, List.isPrefixOf_iff_prefix.mp here, more]
    · have absent : ¬pattern <+: c :: rest := fun front =>
        here (List.isPrefixOf_iff_prefix.mpr front)
      simp [here, absent, length_extend (segmentsFrom_ne_nil pattern 0 rest)]

/-- The pattern of the rule stands in the text. An empty pattern stands nowhere. -/
def Matches (r : Rule) (text : String) : Prop :=
  r.pattern ≠ "" ∧ r.pattern.toList <:+: text.toList

theorem count_ne_zero_iff (r : Rule) (text : String) : r.count text ≠ 0 ↔ r.Matches text := by
  by_cases empty : r.pattern = ""
  · simp [count, isValid, Matches, empty]
  · have some_pattern : r.pattern.toList ≠ [] := by simpa using empty
    simp only [count, isValid, bne_iff_ne, ne_eq, empty, not_false_eq_true, if_true, Matches,
      true_and, segments, ← one_lt_length_segmentsFrom some_pattern]
    omega

instance (r : Rule) (text : String) : Decidable (r.Matches text) :=
  decidable_of_iff _ (count_ne_zero_iff r text)

theorem replaceIn?_of_count_eq_zero {r : Rule} {text : String} (absent : r.count text = 0) :
    r.replaceIn? text = none := by
  simp [replaceIn?, absent]

theorem replaceIn_of_count_eq_zero {r : Rule} {text : String} (absent : r.count text = 0) :
    r.replaceIn text = text := by
  simp [replaceIn, replaceIn?_of_count_eq_zero absent]

theorem replaceIn?_of_count_ne_zero {r : Rule} {text : String} (present : r.count text ≠ 0) :
    r.replaceIn? text = some (r.replaceIn text, r.count text) := by
  simp [replaceIn, replaceIn?, present]

end Codemod.Rule
