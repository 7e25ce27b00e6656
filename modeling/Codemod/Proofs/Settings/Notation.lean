import Codemod.Settings.Environment

/-! The notation of values in variables. What follows a value is never longer than the text it was
read from, so that the length of the text bounds how deep its reading goes: with enough fuel for
that, more fuel changes nothing, and no text is refused for the want of it. -/
namespace Codemod.Environment

open Text

theorem exists_of_map_eq_ok {α β : Type} {read : Except Misreading α} {f : α → β} {b : β}
    (mapped : read.map f = .ok b) : ∃ a, read = .ok a ∧ f a = b := by
  cases read with
  | error cause => cases mapped
  | ok a => exact ⟨a, rfl, Except.ok.inj mapped⟩

theorem length_skipBlanks_le (cs : List Char) : (skipBlanks cs).length ≤ cs.length :=
  (List.dropWhile_suffix _).length_le

theorem length_le_of_closed? {escaped : Bool} {cs text rest : List Char}
    (closed : closed? escaped cs = some (text, rest)) : rest.length ≤ cs.length := by
  induction cs generalizing escaped text with
  | nil => cases closed
  | cons c cs ih =>
    simp only [closed?] at closed
    split at closed
    · cases closed
      exact Nat.le_succ _
    · simp only [Option.map_eq_some_iff, Prod.exists, Prod.mk.injEq] at closed
      obtain ⟨front, back, closed, -, rfl⟩ := closed
      exact Nat.le_succ_of_le (ih closed)

theorem length_le_of_quoted {cs text rest : List Char} (read : quoted cs = .ok (text, rest)) :
    rest.length ≤ cs.length := by
  simp only [quoted] at read
  split at read
  · next front back closed =>
    obtain ⟨inside, -, same⟩ := exists_of_map_eq_ok read
    cases same
    exact length_le_of_closed? closed
  · cases read

theorem length_le_of_entryName {cs name rest : List Char}
    (read : entryName cs = .ok (name, rest)) : rest.length ≤ cs.length := by
  simp only [entryName] at read
  split at read
  · exact Nat.le_succ_of_le (length_le_of_quoted read)
  · split at read
    · cases read
    · cases read
      exact (List.dropWhile_suffix _).length_le

/-- What follows a reading with this fuel is no longer than the text. -/
structure Consumes (fuel : Nat) : Prop where
  value : ∀ {cs d rest}, value fuel cs = .ok (d, rest) → rest.length ≤ cs.length
  items : ∀ {cs list rest}, items fuel cs = .ok (list, rest) → rest.length ≤ cs.length
  entries : ∀ {before cs table rest}, entries fuel before cs = .ok (table, rest) →
    rest.length ≤ cs.length

theorem Consumes.value_succ {fuel : Nat} (deeper : Consumes fuel) {cs rest : List Char} {d : Data}
    (read : Environment.value (fuel + 1) cs = .ok (d, rest)) : rest.length ≤ cs.length := by
  have front := length_skipBlanks_le cs
  simp only [Environment.value] at read
  generalize skipBlanks cs = body at read front
  have shorter {behind : List Char} (within : behind.length ≤ body.length) :
      (skipBlanks behind).length ≤ cs.length :=
    Nat.le_trans (length_skipBlanks_le behind) (Nat.le_trans within front)
  split at read
  · cases read
    exact shorter (by simp only [List.length_cons]; omega)
  · cases read
    exact shorter (by simp only [List.length_cons]; omega)
  · obtain ⟨⟨table, behind⟩, inside, same⟩ := exists_of_map_eq_ok read
    cases same
    exact shorter (Nat.le_succ_of_le (deeper.entries inside))
  · obtain ⟨⟨list, behind⟩, inside, same⟩ := exists_of_map_eq_ok read
    cases same
    exact shorter (Nat.le_succ_of_le (deeper.items inside))
  · obtain ⟨⟨text, behind⟩, inside, same⟩ := exists_of_map_eq_ok read
    cases same
    exact shorter (Nat.le_succ_of_le (length_le_of_quoted inside))
  · split at read
    · cases read
      exact shorter (by simp only [List.length_cons]; omega)
    · cases read
  · cases read
    exact shorter (List.dropWhile_suffix _).length_le

theorem Consumes.items_succ {fuel : Nat} (deeper : Consumes fuel) {cs rest : List Char}
    {list : List Data} (read : Environment.items (fuel + 1) cs = .ok (list, rest)) :
    rest.length ≤ cs.length := by
  simp only [Environment.items] at read
  split at read
  · cases read
    exact Nat.le_succ _
  · cases first : Environment.value fuel cs with
    | error cause => simp [first, bind, Except.bind] at read
    | ok found =>
      obtain ⟨item, behind⟩ := found
      have within := deeper.value first
      simp only [first, bind, Except.bind] at read
      split at read
      · obtain ⟨⟨more, last⟩, later, same⟩ := exists_of_map_eq_ok read
        cases same
        exact Nat.le_trans (deeper.items later) (Nat.le_of_succ_le within)
      · cases read
        exact Nat.le_of_succ_le within
      · cases read

theorem Consumes.entries_succ {fuel : Nat} (deeper : Consumes fuel)
    {before table : List (String × Data)} {cs rest : List Char}
    (read : Environment.entries (fuel + 1) before cs = .ok (table, rest)) :
    rest.length ≤ cs.length := by
  simp only [Environment.entries] at read
  split at read
  · cases read
    exact Nat.le_succ _
  · have front := length_skipBlanks_le cs
    cases named : entryName (skipBlanks cs) with
    | error cause => simp [named, bind, Except.bind] at read
    | ok found =>
      obtain ⟨name, behind⟩ := found
      have name_within := length_le_of_entryName named
      have middle := length_skipBlanks_le behind
      simp only [named, bind, Except.bind] at read
      generalize skipBlanks behind = body at read middle
      split at read
      · next after =>
        cases held : Environment.value fuel after with
        | error cause => simp [held] at read
        | ok found =>
          obtain ⟨item, last⟩ := found
          have value_within := deeper.value held
          have last_within : last.length < cs.length := by
            simp only [List.length_cons] at middle
            omega
          simp only [held] at read
          split at read
          · exact Nat.le_trans (deeper.entries read) (Nat.le_of_succ_le (Nat.le_of_lt last_within))
          · cases read
            exact Nat.le_of_succ_le (Nat.le_of_lt last_within)
          · cases read
      · cases read

theorem consumes (fuel : Nat) : Consumes fuel := by
  induction fuel with
  | zero =>
    constructor
    · intro cs d rest read
      cases read
    · intro cs list rest read
      cases read
    · intro before cs table rest read
      cases read
  | succ fuel ih => exact ⟨ih.value_succ, ih.items_succ, ih.entries_succ⟩

/-- For texts that `fuel` is enough for, `more` fuel changes nothing. A list or table takes one call
more than a value, since it may begin with one that is as long as all that is left of the text. -/
structure Settled (fuel more : Nat) : Prop where
  value : ∀ {cs : List Char}, 2 * cs.length + 1 ≤ fuel → value fuel cs = value more cs
  items : ∀ {cs : List Char}, 2 * cs.length + 2 ≤ fuel → items fuel cs = items more cs
  entries : ∀ {before} {cs : List Char}, 2 * cs.length + 2 ≤ fuel →
    entries fuel before cs = entries more before cs

theorem Settled.value_succ {fuel more : Nat} (deeper : Settled fuel more) {cs : List Char}
    (enough : 2 * cs.length + 1 ≤ fuel + 1) :
    Environment.value (fuel + 1) cs = Environment.value (more + 1) cs := by
  have front := length_skipBlanks_le cs
  simp only [Environment.value]
  generalize skipBlanks cs = body at front
  split
  · rfl
  · rfl
  · simp only [List.length_cons] at front
    rw [deeper.entries (by omega)]
  · simp only [List.length_cons] at front
    rw [deeper.items (by omega)]
  · rfl
  · rfl
  · rfl

theorem Settled.items_succ {fuel more : Nat} (deeper : Settled fuel more) {cs : List Char}
    (enough : 2 * cs.length + 2 ≤ fuel + 1) :
    Environment.items (fuel + 1) cs = Environment.items (more + 1) cs := by
  simp only [Environment.items]
  split
  · rfl
  · rw [deeper.value (by omega)]
    cases first : Environment.value more cs with
    | error cause => rfl
    | ok found =>
      obtain ⟨item, behind⟩ := found
      have within := (consumes more).value first
      simp only [bind, Except.bind]
      split
      · simp only [List.length_cons] at within
        rw [deeper.items (by omega)]
      · rfl
      · rfl

theorem Settled.entries_succ {fuel more : Nat} (deeper : Settled fuel more)
    {before : List (String × Data)} {cs : List Char} (enough : 2 * cs.length + 2 ≤ fuel + 1) :
    Environment.entries (fuel + 1) before cs = Environment.entries (more + 1) before cs := by
  simp only [Environment.entries]
  split
  · rfl
  · have front := length_skipBlanks_le cs
    cases named : entryName (skipBlanks cs) with
    | error cause => rfl
    | ok found =>
      obtain ⟨name, behind⟩ := found
      have name_within := length_le_of_entryName named
      have middle := length_skipBlanks_le behind
      simp only [bind, Except.bind]
      generalize skipBlanks behind = body at middle
      split
      · next after =>
        simp only [List.length_cons] at middle
        rw [deeper.value (by omega)]
        cases held : Environment.value more after with
        | error cause => rfl
        | ok found =>
          obtain ⟨item, last⟩ := found
          have value_within := (consumes more).value held
          simp only
          split
          · simp only [List.length_cons] at value_within
            rw [deeper.entries (by omega)]
          · rfl
          · rfl
      · rfl

theorem settled {fuel more : Nat} (le : fuel ≤ more) : Settled fuel more := by
  induction fuel generalizing more with
  | zero =>
    constructor
    · intro cs enough
      omega
    · intro cs enough
      omega
    · intro before cs enough
      omega
  | succ fuel ih =>
    obtain ⟨more, rfl⟩ : ∃ n, more = n + 1 := ⟨more - 1, by omega⟩
    have deeper := ih (Nat.le_of_succ_le_succ le)
    exact ⟨deeper.value_succ, deeper.items_succ, deeper.entries_succ⟩

/-- The fuel with which a variable's text is read is enough: with more of it, and even with one call
less, the text reads the same. -/
theorem value_of_enough {cs : List Char} {fuel : Nat} (enough : 2 * cs.length + 1 ≤ fuel) :
    value fuel cs = value (2 * cs.length + 2) cs := by
  have least_fuel : value (2 * cs.length + 1) cs = value fuel cs :=
    (settled enough).value (Nat.le_refl _)
  have least_given : value (2 * cs.length + 1) cs = value (2 * cs.length + 2) cs :=
    (settled (Nat.le_succ _)).value (Nat.le_refl _)
  exact least_fuel.symm.trans least_given

end Codemod.Environment
