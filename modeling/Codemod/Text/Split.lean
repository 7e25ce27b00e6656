/-! Splitting a list at every occurrence of one separator, and joining lines of text. -/
namespace Codemod

/-- The parts between occurrences of `sep`; `n` separators give `n + 1` parts. -/
def splitOn [DecidableEq α] (sep : α) : List α → List (List α)
  | [] => [[]]
  | x :: rest =>
    if x = sep then [] :: splitOn sep rest
    else match splitOn sep rest with
      | [] => [[x]]
      | part :: parts => (x :: part) :: parts

theorem splitOn_ne_nil [DecidableEq α] (sep : α) (xs : List α) : splitOn sep xs ≠ [] := by
  induction xs with
  | nil => simp [splitOn]
  | cons x rest ih =>
    simp only [splitOn]
    split
    · simp
    · split <;> simp

theorem intercalate_splitOn [DecidableEq α] (sep : α) (xs : List α) :
    [sep].intercalate (splitOn sep xs) = xs := by
  induction xs with
  | nil => rfl
  | cons x rest ih =>
    simp only [splitOn]
    have parts := splitOn_ne_nil sep rest
    cases h : splitOn sep rest with
    | nil => exact absurd h parts
    | cons part more =>
      rw [h] at ih
      split
      · next same => subst same; rw [← ih]; rfl
      · rw [← ih]; cases more <;> rfl

theorem not_mem_of_mem_splitOn [DecidableEq α] (sep : α) (xs part : List α)
    (member : part ∈ splitOn sep xs) : sep ∉ part := by
  induction xs generalizing part with
  | nil => simp [splitOn] at member; simp [member]
  | cons x rest ih =>
    simp only [splitOn] at member
    split at member
    · rcases List.mem_cons.mp member with rfl | member
      · simp
      · exact ih part member
    · next apart =>
      split at member
      · simp at member; subst member; simpa using Ne.symm apart
      · next first more h =>
        rcases List.mem_cons.mp member with rfl | member
        · have := ih first (by rw [h]; exact List.mem_cons_self ..)
          simp [this, Ne.symm apart]
        · exact ih part (by rw [h]; exact List.mem_cons_of_mem _ member)

end Codemod
