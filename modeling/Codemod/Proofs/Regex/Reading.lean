import Codemod.Regex.Group

/-! Reading a regular expression. What follows a part is shorter than the text that the part was read
from, so that the length of the text bounds the steps: with one step more than that, more fuel
changes nothing, and no expression is refused for the want of it. -/
namespace Codemod.Regex

namespace Switches

theorem length_dropSpace_le (comment : Bool) (cs : List Char) :
    (dropSpace comment cs).length ≤ cs.length := by
  induction cs generalizing comment with
  | nil => exact Nat.le_refl _
  | cons c rest ih =>
    simp only [dropSpace]
    split
    · exact Nat.le_succ_of_le (ih _)
    · split
      · exact Nat.le_succ_of_le (ih _)
      · split
        · exact Nat.le_succ_of_le (ih _)
        · exact Nat.le_refl _

theorem length_skip_le (s : Switches) (cs : List Char) : (s.skip cs).length ≤ cs.length := by
  simp only [skip]
  split
  · exact length_dropSpace_le false cs
  · exact Nat.le_refl _

theorem length_le_of_code? {s : Switches} {missing value code : Nat} {cs rest : List Char}
    (read : s.code? missing value cs = some (code, rest)) : rest.length ≤ cs.length := by
  induction missing generalizing value cs with
  | zero =>
    cases read
    exact length_skip_le s cs
  | succ missing ih =>
    have front := length_skip_le s cs
    simp only [code?] at read
    generalize s.skip cs = body at read front
    cases body with
    | nil => cases read
    | cons c behind =>
      simp only [Option.bind_eq_bind, Option.bind_eq_some_iff] at read
      obtain ⟨digit, -, read⟩ := read
      exact Nat.le_trans (ih read) (Nat.le_of_succ_le front)

end Switches

theorem length_lt_of_escape? {s : Switches} {cs rest : List Char} {atom : Atom}
    (read : escape? s cs = some (atom, rest)) : rest.length < cs.length := by
  cases cs with
  | nil => cases read
  | cons c behind =>
    have coded {digits : Nat} (read : escape?.coded s digits behind = some (atom, rest)) :
        rest.length < (c :: behind).length := by
      simp only [escape?.coded, Option.bind_eq_bind, Option.bind_eq_some_iff, Prod.exists] at read
      obtain ⟨code, last, read, char, -, same⟩ := read
      cases same
      exact Nat.lt_succ_of_le (Switches.length_le_of_code? read)
    simp only [escape?] at read
    repeat' split at read
    iterate 3
      · exact coded read
    iterate 5
      · cases read
        exact Nat.lt_succ_self _
    · simp only [Option.map_eq_some_iff, Prod.mk.injEq] at read
      obtain ⟨control, -, -, rfl⟩ := read
      exact Nat.lt_succ_self _

theorem length_le_of_named {cs rest : List Char} (read : namedClass?.named cs = some rest) :
    rest.length ≤ cs.length := by
  have back := (List.dropWhile_suffix (· ≠ ':') (l := cs)).length_le
  simp only [namedClass?.named] at read
  split at read
  · next same =>
    split at read
    · cases read
      simp only [same, List.length_cons] at back
      omega
    · cases read
  · cases read

theorem length_le_of_namedClass? {cs rest : List Char} {negated : Bool}
    (read : namedClass? cs = some (negated, rest)) : rest.length ≤ cs.length := by
  simp only [namedClass?] at read
  split at read
  · simp only [Option.map_eq_some_iff, Prod.mk.injEq] at read
    obtain ⟨behind, named, -, rfl⟩ := read
    exact Nat.le_succ_of_le (Nat.le_succ_of_le (length_le_of_named named))
  · simp only [Option.map_eq_some_iff, Prod.mk.injEq] at read
    obtain ⟨behind, named, -, rfl⟩ := read
    exact Nat.le_succ_of_le (length_le_of_named named)
  · cases read

namespace Switches

variable {s : Switches} {cs rest : List Char}

theorem length_lt_of_single? {atom : Atom} (read : s.single? cs = some (atom, rest)) :
    rest.length < cs.length := by
  cases cs with
  | nil => cases read
  | cons c behind =>
    simp only [single?] at read
    split at read
    · exact Nat.lt_succ_of_lt (length_lt_of_escape? read)
    · cases read
      exact Nat.lt_succ_self _

theorem length_lt_of_member? (read : s.member? cs = some rest) : rest.length < cs.length := by
  simp only [member?, Option.bind_eq_bind, Option.bind_eq_some_iff, Prod.exists] at read
  obtain ⟨first, behind, single, read⟩ := read
  have front := length_lt_of_single? single
  have middle := length_skip_le s behind
  have alone : (if s.allowsInClass first = true then some (s.skip behind) else none) = some rest →
      rest.length < cs.length := by
    intro ended
    split at ended
    · cases ended
      exact Nat.lt_of_le_of_lt middle front
    · cases ended
  split at read
  · next more same =>
    split at read
    · exact alone read
    · simp only [Option.bind_eq_some_iff, Prod.exists] at read
      obtain ⟨last, after, single, read⟩ := read
      have back := length_lt_of_single? single
      have between := length_skip_le s more
      simp only [same, List.length_cons] at middle
      split at read
      · split at read
        · cases read
          omega
        · cases read
      · cases read
  · exact alone read

theorem length_le_of_dropNegation? (read : s.dropNegation? cs = some rest) :
    rest.length ≤ cs.length := by
  have front := length_skip_le s cs
  simp only [dropNegation?] at read
  generalize s.skip cs = body at read front
  split at read
  · split at read
    · cases read
      exact Nat.le_of_succ_le front
    · cases read
  · cases read
    exact front

end Switches

/-- What follows a class is shorter than what follows its opening bracket. -/
theorem length_lt_of_inClass? {fuel : Nat} {s : Switches} {outer : List Brackets} {b : Brackets}
    {cs rest : List Char} {height : Nat}
    (read : inClass? fuel s outer b cs = some (height, rest)) : rest.length < cs.length := by
  induction fuel generalizing outer b cs with
  | zero => cases read
  | succ fuel ih =>
    have front := Switches.length_skip_le s cs
    simp only [inClass?] at read
    generalize s.skip cs = body at read front
    cases body with
    | nil => cases read
    | cons c behind =>
      simp only [List.length_cons] at front
      have deeper {outer : List Brackets} {b : Brackets} {last : List Char}
          (within : last.length ≤ behind.length)
          (read : inClass? fuel s outer b last = some (height, rest)) :
          rest.length < cs.length := by
        have := ih read
        omega
      simp only at read
      split at read
      · split at read
        · exact deeper (Nat.le_refl _) read
        · cases read
      split at read
      · split at read
        · exact deeper (Nat.le_refl _) read
        · cases read
      split at read
      · split at read
        · cases read
          omega
        · exact deeper (Nat.le_refl _) read
      split at read
      · split at read
        · next named =>
          split at read
          · exact deeper (length_le_of_namedClass? named) read
          · cases read
        · simp only [Option.bind_eq_some_iff] at read
          obtain ⟨last, dropped, read⟩ := read
          exact deeper (Switches.length_le_of_dropNegation? dropped) read
      · split at read
        · exact deeper (Nat.le_succ _) read
        · exact deeper (Nat.le_succ _) read
        · exact deeper (Nat.le_succ _) read
        · simp only [Option.bind_eq_some_iff] at read
          obtain ⟨last, member, read⟩ := read
          exact deeper (Nat.le_of_lt_succ (Switches.length_lt_of_member? member)) read

theorem inClass?_settled {fuel more : Nat} (le : fuel ≤ more) {s : Switches}
    {outer : List Brackets} {b : Brackets} {cs : List Char} (enough : cs.length + 1 ≤ fuel) :
    inClass? fuel s outer b cs = inClass? more s outer b cs := by
  induction fuel generalizing more outer b cs with
  | zero => omega
  | succ fuel ih =>
    obtain ⟨more, rfl⟩ : ∃ n, more = n + 1 := ⟨more - 1, by omega⟩
    have front := Switches.length_skip_le s cs
    simp only [inClass?]
    generalize s.skip cs = body at front
    cases body with
    | nil => rfl
    | cons c behind =>
      simp only [List.length_cons] at front
      have deeper {outer : List Brackets} {b : Brackets} {last : List Char}
          (within : last.length ≤ behind.length) :
          inClass? fuel s outer b last = inClass? more s outer b last :=
        ih (Nat.le_of_succ_le_succ le) (by omega)
      simp only
      split
      · rw [deeper (Nat.le_refl _)]
      split
      · rw [deeper (Nat.le_refl _)]
      split
      · split
        · rfl
        · exact deeper (Nat.le_refl _)
      split
      · split
        · next named => rw [deeper (length_le_of_namedClass? named)]
        · exact Option.bind_congr fun last dropped =>
            deeper (Switches.length_le_of_dropNegation? dropped)
      · split
        · exact deeper (Nat.le_succ _)
        · exact deeper (Nat.le_succ _)
        · exact deeper (Nat.le_succ _)
        · exact Option.bind_congr fun last member =>
            deeper (Nat.le_of_lt_succ (Switches.length_lt_of_member? member))

theorem class?_eq (s : Switches) {cs : List Char} {fuel : Nat} (enough : cs.length + 1 ≤ fuel) :
    class? s cs = (s.dropNegation? cs).bind (inClass? fuel s [] .opened) :=
  Option.bind_congr fun last dropped =>
    have shorter := Switches.length_le_of_dropNegation? dropped
    inClass?_settled enough (by omega)

theorem length_lt_of_class? {s : Switches} {cs rest : List Char} {height : Nat}
    (read : class? s cs = some (height, rest)) : rest.length < cs.length := by
  simp only [class?, Option.bind_eq_some_iff] at read
  obtain ⟨last, dropped, read⟩ := read
  exact Nat.lt_of_lt_of_le (length_lt_of_inClass? read)
    (Switches.length_le_of_dropNegation? dropped)

theorem length_le_of_read? {s after : Switches} {seen : List Char} {on : Bool} {mark : Char}
    {cs rest : List Char} (read : s.read? seen on cs = some (after, mark, rest)) :
    rest.length ≤ cs.length := by
  induction cs generalizing s seen on with
  | nil => cases read
  | cons c behind ih =>
    simp only [Switches.read?] at read
    split at read
    · cases read
      exact Nat.le_succ _
    split at read
    · split at read
      · cases read
      · cases read
        exact Nat.le_succ _
    split at read
    · split at read
      · cases read
      · split at read
        · exact Nat.le_succ_of_le (ih read)
        · cases read
    · split at read
      · exact Nat.le_succ_of_le (ih read)
      · cases read

theorem length_le_of_groupName? {cs name rest : List Char}
    (read : groupName? cs = some (name, rest)) : rest.length ≤ cs.length := by
  have back := (List.dropWhile_suffix (· ≠ '>') (l := cs)).length_le
  simp only [groupName?] at read
  split at read
  · next same =>
    split at read
    · cases read
      simp only [same, List.length_cons] at back
      omega
    · cases read
  · cases read

theorem length_le_of_opening? {s : Switches} {cs rest : List Char} {opening : Opening}
    (read : opening? s cs = some (opening, rest)) : rest.length ≤ cs.length := by
  have front := Switches.length_skip_le s cs
  have named {behind : List Char} (shorter : behind.length ≤ cs.length)
      (group : (groupName? behind).map (fun found => (Opening.group s (some found.1), found.2)) =
        some (opening, rest)) : rest.length ≤ cs.length := by
    simp only [Option.map_eq_some_iff, Prod.exists, Prod.mk.injEq] at group
    obtain ⟨name, after, begun, -, rfl⟩ := group
    exact Nat.le_trans (length_le_of_groupName? begun) shorter
  simp only [opening?] at read
  generalize s.skip cs = body at read front
  split at read
  · simp only [List.length_cons] at front
    exact named (by omega) read
  · simp only [List.length_cons] at front
    exact named (by omega) read
  · simp only [Option.map_eq_some_iff, Prod.exists, Prod.mk.injEq] at read
    obtain ⟨inner, mark, behind, switched, -, rfl⟩ := read
    exact Nat.le_trans (length_le_of_read? switched) (Nat.le_of_succ_le front)
  · cases read
    exact front

theorem height?_settled {fuel more : Nat} (le : fuel ≤ more) {names : List (List Char)}
    {outer : List Group} {g : Group} {cs : List Char} (enough : cs.length + 1 ≤ fuel) :
    height? fuel names outer g cs = height? more names outer g cs := by
  induction fuel generalizing more names outer g cs with
  | zero => omega
  | succ fuel ih =>
    obtain ⟨more, rfl⟩ : ∃ n, more = n + 1 := ⟨more - 1, by omega⟩
    have front := Switches.length_skip_le g.switches cs
    simp only [height?]
    generalize g.switches.skip cs = body at front
    cases body with
    | nil => rfl
    | cons c behind =>
      simp only [List.length_cons] at front
      have deeper {names : List (List Char)} {outer : List Group} {g : Group} {last : List Char}
          (within : last.length ≤ behind.length) :
          height? fuel names outer g last = height? more names outer g last :=
        ih (Nat.le_of_succ_le_succ le) (by omega)
      simp only
      split
      · split
        · next opened => exact deeper (length_le_of_opening? opened)
        · next opened => rw [deeper (length_le_of_opening? opened)]
        · next opened => exact deeper (length_le_of_opening? opened)
        · rfl
      split
      · split
        · rfl
        · exact deeper (Nat.le_refl _)
      split
      · exact deeper (Nat.le_refl _)
      split
      · refine Option.bind_congr fun repeated _ => deeper ?_
        split
        · exact Nat.le_succ _
        · exact Nat.le_refl _
      split
      · rfl
      split
      · refine Option.bind_congr fun found read => deeper ?_
        exact Nat.le_of_lt (length_lt_of_class? read)
      split
      · rw [deeper (Nat.le_refl _)]
      split
      · exact deeper (Nat.le_refl _)
      · refine Option.bind_congr fun found read => ?_
        rw [deeper (Nat.le_of_lt_succ (Switches.length_lt_of_single? read))]

/-- A text is a regular expression if reading it with any fuel beyond its length gives a height that
is not too great. -/
theorem isRegex_iff {cs : List Char} {fuel : Nat} (enough : cs.length + 1 ≤ fuel) :
    isRegex cs ↔ ∃ height, height? fuel [] [] (.opened .initial) cs = some height ∧
      height ≤ heightLimit := by
  rw [isRegex, height?_settled enough (Nat.le_refl _)]
  cases height? fuel [] [] (.opened .initial) cs <;> simp

end Codemod.Regex
