import Codemod.Calendar

/-! Points in time as text in the form of RFC 3339, in universal time. -/
namespace Codemod.Timestamp

open Calendar

structure Date where
  year : Nat
  month : Nat
  day : Nat
deriving DecidableEq, Repr

/-- The month and day of the `days`-th day of a year, counted from zero. -/
def monthAndDay (year : Nat) : List Nat → Nat → Nat × Nat
  | [], days => (12, days + 1)
  | month :: months, days =>
    if days < daysInMonth year month then (month, days + 1)
    else monthAndDay year months (days - daysInMonth year month)

/-- The date `days` days after the first day of a year. Every step passes over a whole year, so that
as many steps as there are days suffice. -/
def dateFrom (year days : Nat) : Nat → Date
  | 0 => ⟨year, 1, days + 1⟩
  | steps + 1 =>
    if days < daysInYear year then
      let found := monthAndDay year ((List.range 11).map (· + 1)) days
      ⟨year, found.1, found.2⟩
    else dateFrom (year + 1) (days - daysInYear year) steps

theorem dateFrom_of_enough {year days steps more : Nat} (enough : days ≤ steps)
    (le : steps ≤ more) : dateFrom year days steps = dateFrom year days more := by
  induction steps generalizing year days more with
  | zero =>
    obtain rfl : days = 0 := Nat.le_zero.mp enough
    cases more with
    | zero => rfl
    | succ more =>
      simp [dateFrom, daysInYear_pos, monthAndDay, daysInMonth, List.range, List.range.loop]
  | succ steps ih =>
    obtain ⟨more, rfl⟩ : ∃ n, more = n + 1 := ⟨more - 1, by omega⟩
    have shorter := daysInYear_pos year
    simp only [dateFrom]
    split
    · rfl
    · exact ih (by omega) (Nat.le_of_succ_le_succ le)

def dateOf (days : Nat) : Date := dateFrom 1970 days days

def padded (width n : Nat) : String :=
  String.ofList ((toString n).toList.leftpad width '0')

def text (seconds nanoseconds : Nat) : String :=
  let date := dateOf (seconds / 86400)
  let time := seconds % 86400
  s!"{padded 4 date.year}-{padded 2 date.month}-{padded 2 date.day}T" ++
    s!"{padded 2 (time / 3600)}:{padded 2 (time / 60 % 60)}:{padded 2 (time % 60)}." ++
    s!"{padded 9 nanoseconds}+00:00"

end Codemod.Timestamp
