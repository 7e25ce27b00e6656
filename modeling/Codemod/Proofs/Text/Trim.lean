import Codemod.Text.Blank
import Mathlib.Data.List.DropRight

/-! Texts without the white space around them. What is left by trimming has none at its ends, and
all that is gone is white space, so texts that differ only in this are trimmed to the same. -/
namespace Codemod.Text

theorem length_dropEndWhile_le (p : Char → Bool) (cs : List Char) :
    (dropEndWhile p cs).length ≤ cs.length :=
  (List.rdropWhile_prefix p cs).length_le

theorem length_trim_le (cs : List Char) : (trim cs).length ≤ cs.length :=
  (length_dropEndWhile_le isBlank _).trans (List.length_dropWhile_le isBlank cs)

theorem length_trim_lt {c : Char} (rest : List Char) (blank : isBlank c = true) :
    (trim (c :: rest)).length < (c :: rest).length := by
  have dropped : trim (c :: rest) = trim rest := by
    rw [trim, List.dropWhile_cons_of_pos blank, trim]
  rw [dropped, List.length_cons]
  exact Nat.lt_succ_of_le (length_trim_le rest)

theorem head?_trim {cs : List Char} {c : Char} (first : (trim cs).head? = some c) :
    isBlank c = false := by
  obtain ⟨behind, split⟩ := List.rdropWhile_prefix isBlank (cs.dropWhile isBlank)
  have whole : (cs.dropWhile isBlank).head? = some c := by
    rw [← split, List.head?_append]
    change (trim cs).head?.or behind.head? = some c
    rw [first, Option.some_or]
  have stays := List.head?_dropWhile_not isBlank cs
  rw [whole] at stays
  exact stays

theorem getLast?_trim {cs : List Char} {c : Char} (last : (trim cs).getLast? = some c) :
    isBlank c = false := by
  have kept : trim cs ≠ [] := by
    intro empty
    rw [empty] at last
    cases last
  rw [List.getLast?_eq_some_getLast kept, Option.some.injEq] at last
  rw [← last]
  exact Bool.eq_false_iff.mpr (List.rdropWhile_last_not isBlank _ kept)

/-- A text with no white space at its ends. -/
def Bare (cs : List Char) : Prop :=
  ∀ c, cs.head? = some c ∨ cs.getLast? = some c → isBlank c = false

theorem bare_trim (cs : List Char) : Bare (trim cs) := by
  rintro c (first | last)
  · exact head?_trim first
  · exact getLast?_trim last

theorem trim_of_bare {cs : List Char} (bare : Bare cs) : trim cs = cs := by
  have started : cs.dropWhile isBlank = cs := by
    cases cs with
    | nil => rfl
    | cons c rest => exact List.dropWhile_cons_of_neg (by simp [bare c (.inl rfl)])
  rw [trim, started]
  refine List.rdropWhile_eq_self_iff.mpr fun nonempty => ?_
  simp [bare _ (.inr (List.getLast?_eq_some_getLast nonempty))]

/-- A text with white space around it. -/
def Padded (core cs : List Char) : Prop :=
  ∃ before behind, cs = before ++ core ++ behind ∧ (∀ c ∈ before, isBlank c = true) ∧
    ∀ c ∈ behind, isBlank c = true

/-- White space around a text is not part of it, wherever one takes it to begin and to end. -/
theorem trim_padded {core cs : List Char} (padded : Padded core cs) : trim cs = trim core := by
  obtain ⟨before, behind, rfl, blank, blank'⟩ := padded
  have ends (cs : List Char) : dropEndWhile isBlank (cs ++ behind) = dropEndWhile isBlank cs := by
    have turned : ∀ c ∈ behind.reverse, isBlank c = true := fun c member =>
      blank' c (List.mem_reverse.mp member)
    rw [dropEndWhile, List.reverse_append, List.dropWhile_append_of_pos turned, dropEndWhile]
  have gone : behind.dropWhile isBlank = [] := List.dropWhile_eq_nil_iff.mpr blank'
  rw [trim, List.append_assoc, List.dropWhile_append_of_pos blank, List.dropWhile_append, trim]
  split
  · next only_blank => rw [gone, List.isEmpty_iff.mp only_blank]
  · exact ends _

theorem padded_trim (cs : List Char) : Padded (trim cs) cs := by
  refine ⟨cs.takeWhile isBlank, (cs.dropWhile isBlank).rtakeWhile isBlank, ?_,
    fun c member => List.mem_takeWhile_imp member, fun c member => List.mem_rtakeWhile_imp member⟩
  have ended : trim cs ++ (cs.dropWhile isBlank).rtakeWhile isBlank = cs.dropWhile isBlank :=
    List.rdropWhile_append_rtakeWhile
  calc cs
    _ = cs.takeWhile isBlank ++ cs.dropWhile isBlank := List.takeWhile_append_dropWhile.symm
    _ = cs.takeWhile isBlank ++ (trim cs ++ (cs.dropWhile isBlank).rtakeWhile isBlank) :=
      congrArg _ ended.symm
    _ = _ := (List.append_assoc _ _ _).symm

end Codemod.Text
