/-! Counters of what one rule did across a tree. -/
namespace Codemod

/-- Files read, files in which the rule matched, and occurrences replaced. -/
structure Tally where
  scanned : Nat
  changed : Nat
  replacements : Nat
deriving DecidableEq, Repr

namespace Tally

def zero : Tally := ⟨0, 0, 0⟩

def record (t : Tally) (replacements : Nat) : Tally :=
  if replacements = 0 then { t with scanned := t.scanned + 1 }
  else ⟨t.scanned + 1, t.changed + 1, t.replacements + replacements⟩

def add (t u : Tally) : Tally :=
  ⟨t.scanned + u.scanned, t.changed + u.changed, t.replacements + u.replacements⟩

instance : Add Tally := ⟨add⟩

def isUnmatched (t : Tally) : Bool := t.replacements == 0

/-- Files are changed and occurrences replaced together. -/
structure Coherent (t : Tally) : Prop where
  changed_le_scanned : t.changed ≤ t.scanned
  changed_le_replacements : t.changed ≤ t.replacements
  changed_eq_zero_iff : t.changed = 0 ↔ t.replacements = 0

theorem zero_coherent : Coherent zero := ⟨Nat.le_refl _, Nat.le_refl _, Iff.rfl⟩

theorem record_coherent {t : Tally} (h : Coherent t) (n : Nat) : Coherent (t.record n) := by
  obtain ⟨scanned, replaced, none⟩ := h
  unfold record
  split
  · exact ⟨Nat.le_succ_of_le scanned, replaced, none⟩
  · exact ⟨Nat.succ_le_succ scanned, by simp only; omega, by simp only; omega⟩

end Tally

end Codemod
