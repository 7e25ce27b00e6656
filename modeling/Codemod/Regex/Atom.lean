import Codemod.Regex.Switches
import Codemod.Text.Digits

/-! The smallest parts of regular expressions. There are no tables for letters, digits and cases of
Unicode, so whatever would need them is refused. So is what could match a part of a character, when
texts are bytes. -/
namespace Codemod.Regex

open Text

inductive Atom where
  /-- A character, perhaps written as the code of one byte. -/
  | literal (c : Char) (asByte : Bool)
  /-- The digits, the white space or the letters of words, or all other characters. -/
  | family (negated : Bool)
  | place (atWord : Bool)
deriving DecidableEq, Repr

namespace Switches

def allowsMember (s : Switches) (c : Char) : Bool :=
  if s.unicode then !s.caseless else c.toNat < 0x80

def allowsFamily (s : Switches) (negated : Bool) : Bool := !s.unicode && !negated

def allows (s : Switches) : Atom → Bool
  | .literal c asByte => if s.unicode then !s.caseless else !asByte || c.toNat < 0x80
  | .family negated => s.allowsFamily negated
  | .place atWord => !s.unicode || !atWord

def allowsInClass (s : Switches) : Atom → Bool
  | .literal c _ => s.allowsMember c
  | .family negated => s.allowsFamily negated
  | .place _ => false

/-- Reads as many hexadecimal digits as are missing, with the space around them. -/
def code? (s : Switches) (missing value : Nat) (cs : List Char) : Option (Nat × List Char) :=
  match missing with
  | 0 => some (value, s.skip cs)
  | missing + 1 =>
    match s.skip cs with
    | [] => none
    | c :: rest => do s.code? missing (value * 16 + (← digitValue? 16 c)) rest

end Switches

def isEscapable (c : Char) : Bool := c.toNat < 0x80 && !c.isAlphanum && c != '<' && c != '>'

def control? (c : Char) : Option Char :=
  if c = 'a' then some '\x07'
  else if c = 'f' then some '\x0c'
  else if c = 'n' then some '\n'
  else if c = 'r' then some '\r'
  else if c = 't' then some '\t'
  else if c = 'v' then some '\x0b'
  else none

def escape? (s : Switches) : List Char → Option (Atom × List Char)
  | [] => none
  | c :: rest =>
    if c = 'x' then coded 2 rest
    else if c = 'u' then coded 4 rest
    else if c = 'U' then coded 8 rest
    else if c = 'd' ∨ c = 's' ∨ c = 'w' then some (.family false, rest)
    else if c = 'D' ∨ c = 'S' ∨ c = 'W' then some (.family true, rest)
    else if c = 'A' ∨ c = 'z' then some (.place false, rest)
    else if c = 'b' ∨ c = 'B' ∨ c = '<' ∨ c = '>' then some (.place true, rest)
    else if isEscapable c then some (.literal c false, rest)
    else (control? c).map fun control => (.literal control false, rest)
where
  coded (digits : Nat) (cs : List Char) : Option (Atom × List Char) := do
    let (value, rest) ← s.code? digits 0 cs
    return (.literal (← scalar? value) (digits = 2), rest)

end Codemod.Regex
