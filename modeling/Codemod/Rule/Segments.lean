/-! Cutting a text at the occurrences of a pattern. The text is read once from the left: where the
pattern occurs it is passed over whole, so occurrences are leftmost and never overlap. The parts
between them determine both how often the pattern occurs and what replacing it gives. -/
namespace Codemod.Rule

def extend (c : Char) : List (List Char) → List (List Char)
  | [] => [[c]]
  | first :: more => (c :: first) :: more

/-- The segments of the text after the first `skip` characters, which belong to an occurrence
already found. -/
def segmentsFrom (pattern : List Char) : Nat → List Char → List (List Char)
  | _, [] => [[]]
  | skip + 1, _ :: rest => segmentsFrom pattern skip rest
  | 0, c :: rest =>
    if pattern.isPrefixOf (c :: rest) then [] :: segmentsFrom pattern (pattern.length - 1) rest
    else extend c (segmentsFrom pattern 0 rest)

/-- The parts of `text` between the leftmost non-overlapping occurrences of a non-empty pattern;
`n` occurrences give `n + 1` segments. -/
def segments (pattern text : List Char) : List (List Char) := segmentsFrom pattern 0 text

theorem extend_ne_nil (c : Char) (parts : List (List Char)) : extend c parts ≠ [] := by
  cases parts <;> simp [extend]

theorem segmentsFrom_ne_nil (pattern : List Char) (skip : Nat) (text : List Char) :
    segmentsFrom pattern skip text ≠ [] := by
  induction text generalizing skip with
  | nil => simp [segmentsFrom]
  | cons c rest ih =>
    cases skip with
    | succ skip => exact ih skip
    | zero =>
      simp only [segmentsFrom]
      split
      · simp
      · exact extend_ne_nil c _

theorem length_extend {c : Char} {parts : List (List Char)} (h : parts ≠ []) :
    (extend c parts).length = parts.length := by
  cases parts with
  | nil => exact absurd rfl h
  | cons first more => rfl

end Codemod.Rule
