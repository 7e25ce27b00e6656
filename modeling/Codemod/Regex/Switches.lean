import Codemod.Text.Blank

/-! Switches of regular expressions. They hold from where they are set to the end of the group, and
decide how the rest of the group is read. -/
namespace Codemod.Regex

/-- The switches that hold at one place. The other ones that may be set do not decide what is well
formed. -/
structure Switches where
  unicode : Bool
  caseless : Bool
  /-- White space and comments may stand anywhere. -/
  spaced : Bool
deriving DecidableEq, Repr

namespace Switches

def initial : Switches := ⟨true, false, false⟩

def letters : List Char := ['i', 'm', 's', 'U', 'u', 'R', 'x']

def set (s : Switches) (letter : Char) (on : Bool) : Switches :=
  if letter = 'u' then { s with unicode := on }
  else if letter = 'i' then { s with caseless := on }
  else if letter = 'x' then { s with spaced := on }
  else s

def dropSpace (comment : Bool) : List Char → List Char
  | [] => []
  | c :: rest =>
    if comment then dropSpace (c ≠ '\n') rest
    else if Text.isBlank c then dropSpace false rest
    else if c = '#' then dropSpace true rest
    else c :: rest

def skip (s : Switches) (cs : List Char) : List Char :=
  if s.spaced then dropSpace false cs else cs

def peekSpace (comment : Bool) : List Char → Option Char
  | [] => none
  | c :: rest =>
    if Text.isBlank c then peekSpace comment rest
    else if c = '#' ∧ !comment then peekSpace true rest
    else some c

/-- The next character with regard to the space that the switches allow. Of a comment only the mark
counts as space. -/
def peek? (s : Switches) (cs : List Char) : Option Char :=
  if s.spaced then peekSpace false cs else cs.head?

/-- Reads letters of switches up to `:` or `)`, and returns that mark and what follows it. No letter
comes twice, and after the only dash, which is not the last, switches are turned off. -/
def read? (s : Switches) (seen : List Char) (on : Bool) :
    List Char → Option (Switches × Char × List Char)
  | [] => none
  | c :: rest =>
    if c = ':' then some (s, c, rest)
    else if c = ')' then if seen.isEmpty then none else some (s, c, rest)
    else if c = '-' then
      match rest with
      | [] => none
      | next :: _ =>
        if on && next != ':' && next != ')' then read? s seen false rest else none
    else if letters.contains c && !seen.contains c then read? (s.set c on) (c :: seen) on rest
    else none

end Switches

end Codemod.Regex
