import Codemod.Text.Digits

/-! Numbers as they are written: the digits of a number denote it, and only zero begins with a
zero. -/
namespace Codemod.Text

variable {c : Char} {cs : List Char} {n : Nat}

theorem isDigit_of_isDigit (digit : c.isDigit) : isDigit c = true := by
  simpa [isDigit, Char.isDigit, Char.le_def] using digit

theorem digitValue?_of_isDigit (digit : c.isDigit) :
    digitValue? 10 c = some (c.toNat - '0'.toNat) := by
  have bounds := Char.isDigit_iff_toNat.mp digit
  have range : '0' ≤ c ∧ c ≤ '9' := by simpa [isDigit] using isDigit_of_isDigit digit
  have small : c.toNat - 48 < 10 := by
    have := bounds.2
    simp at this
    omega
  simp [digitValue?, range, small]

theorem foldlM_digits (digits : ∀ c ∈ cs, c.isDigit) (value : Nat) :
    cs.foldlM (fun value c => (digitValue? 10 c).map (value * 10 + ·)) value =
      some (Nat.ofDigitChars 10 cs value) := by
  induction cs generalizing value with
  | nil => simp
  | cons c cs ih =>
    obtain ⟨here, later⟩ := List.forall_mem_cons.mp digits
    simp only [List.foldlM_cons, digitValue?_of_isDigit here, Option.map_some,
      Option.bind_eq_bind, Option.bind_some, ih later, Nat.ofDigitChars_cons, Nat.mul_comm]

theorem isDigit_toDigits (n : Nat) : ∀ c ∈ Nat.toDigits 10 n, c.isDigit := fun _ member =>
  Nat.isDigit_of_mem_toDigits (by decide) (by decide) member

theorem number?_toDigits (n : Nat) : number? 10 (Nat.toDigits 10 n) = some n := by
  obtain ⟨c, cs, digits⟩ := List.exists_cons_of_ne_nil (Nat.toDigits_ne_nil (b := 10) (n := n))
  have folded := foldlM_digits (isDigit_toDigits n) 0
  rw [Nat.ofDigitChars_ten_toDigits, digits] at folded
  rw [digits]
  exact folded

theorem head?_toDigits (zero : (Nat.toDigits 10 n).head? = some '0') : n = 0 := by
  induction n using Nat.strongRecOn with
  | ind n ih =>
    by_cases small : n < 10
    · rw [Nat.toDigits_of_lt_base small] at zero
      have code := congrArg Char.toNat (Option.some.inj zero)
      rw [Nat.toNat_digitChar_of_lt_ten small] at code
      simp at code
      omega
    · rw [Nat.toDigits_of_base_le (by decide) (by omega), List.head?_append,
        Option.or_eq_some_iff] at zero
      rcases zero with front | ⟨empty, _⟩
      · have := ih (n / 10) (by omega) front
        omega
      · exact absurd (List.head?_eq_none_iff.mp empty) Nat.toDigits_ne_nil

end Codemod.Text
