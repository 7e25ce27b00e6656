/-! Digits of numbers in several bases. -/
namespace Codemod.Text

def isDigit (c : Char) : Bool := '0' ≤ c && c ≤ '9'

/-- The value of a digit, with letters of either case from ten on. -/
def digitValue? (base : Nat) (c : Char) : Option Nat :=
  let value :=
    if '0' ≤ c ∧ c ≤ '9' then some (c.toNat - '0'.toNat)
    else if 'a' ≤ c ∧ c ≤ 'z' then some (c.toNat - 'a'.toNat + 10)
    else if 'A' ≤ c ∧ c ≤ 'Z' then some (c.toNat - 'A'.toNat + 10)
    else none
  value.filter (· < base)

def number? (base : Nat) : List Char → Option Nat
  | [] => none
  | digits => digits.foldlM (fun value c => (digitValue? base c).map (value * base + ·)) 0

/-- The character with a code, which is neither a surrogate nor beyond U+10FFFF. -/
def scalar? (value : Nat) : Option Char :=
  if value < 0xD800 ∨ 0xDFFF < value ∧ value ≤ 0x10FFFF then some (Char.ofNat value) else none

def unsignedLimit : Nat := 18446744073709551616

/-- Two to the power of 63: signed numbers of 64 bits are smaller, and their opposites not
larger. -/
def signedLimit : Nat := 9223372036854775808

def lowerHexDigit (n : Nat) : Char :=
  if n < 10 then Char.ofNat ('0'.toNat + n) else Char.ofNat ('a'.toNat + (n - 10))

def upperHexDigit (n : Nat) : Char :=
  if n < 10 then Char.ofNat ('0'.toNat + n) else Char.ofNat ('A'.toNat + (n - 10))

end Codemod.Text
