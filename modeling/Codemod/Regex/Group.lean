import Codemod.Regex.Class
import Codemod.Text.Alphabet

/-! Groups of regular expressions, and the texts that are regular expressions. Nothing looks ahead
or behind. -/
namespace Codemod.Regex

open Text

inductive Opening where
  | group (switches : Switches) (name : Option (List Char))
  /-- These switches hold for the rest of the group around it. -/
  | setting (switches : Switches)
deriving DecidableEq, Repr

def beginsName (c : Char) : Bool := c == '_' || isAlphabetic c

def continuesName (c : Char) : Bool :=
  c == '_' || c == '.' || c == '[' || c == ']' || isAlphanumeric c

def groupName? (cs : List Char) : Option (List Char × List Char) :=
  match cs.takeWhile (· ≠ '>'), cs.dropWhile (· ≠ '>') with
  | first :: more, _ :: rest =>
    if beginsName first && more.all continuesName then some (first :: more, rest) else none
  | _, _ => none

def opening? (s : Switches) (cs : List Char) : Option (Opening × List Char) :=
  match s.skip cs with
  | '?' :: 'P' :: '<' :: rest | '?' :: '<' :: rest =>
    (groupName? rest).map fun (name, rest) => (.group s name, rest)
  | '?' :: rest =>
    (s.read? [] true rest).map fun (inner, mark, rest) =>
      (if mark = ':' then .group inner none else .setting inner, rest)
  | cs => some (.group s none, cs)

/-- A group that is being read, or the whole expression. -/
structure Group where
  switches : Switches
  choices : List Nat
  /-- The heights of the parts since the last bar, the last one first. -/
  parts : List Nat
  repeatable : Bool
deriving DecidableEq, Repr

namespace Group

def opened (switches : Switches) : Group := ⟨switches, [], [], false⟩

def add (g : Group) (height : Nat) : Group :=
  { g with parts := height :: g.parts, repeatable := true }

/-- Reads a setting of switches, which is a part that cannot be repeated. -/
def set (g : Group) (switches : Switches) : Group :=
  { g with switches, parts := 0 :: g.parts, repeatable := false }

def choose (g : Group) : Group :=
  { g with choices := joined g.parts :: g.choices, parts := [], repeatable := false }

def repeated? (g : Group) : Option Group :=
  match g.parts with
  | height :: parts => if g.repeatable then some { g with parts := (height + 1) :: parts } else none
  | [] => none

def height (g : Group) : Nat := joined (joined g.parts :: g.choices)

end Group

/-- The height of the expression that a text ends, which is being read in a group within other ones:
`names` are the names of the groups so far. A count in braces is never closed, since an expression
stands between braces itself and holds no closing one. Every step consumes a character, so that the
length of the text and one more are enough fuel. -/
def height? (fuel : Nat) (names : List (List Char)) (outer : List Group) (g : Group)
    (cs : List Char) : Option Nat :=
  match fuel with
  | 0 => none
  | fuel + 1 =>
    match g.switches.skip cs with
    | [] => if outer.isEmpty then some g.height else none
    | c :: rest =>
      if c = '(' then
        match opening? g.switches rest with
        | some (.group inner none, rest) => height? fuel names (g :: outer) (.opened inner) rest
        | some (.group inner (some name), rest) =>
          if names.contains name then none
          else height? fuel (name :: names) (g :: outer) (.opened inner) rest
        | some (.setting inner, rest) => height? fuel names outer (g.set inner) rest
        | none => none
      else if c = ')' then
        match outer with
        | [] => none
        | around :: outer => height? fuel names outer (around.add (g.height + 1)) rest
      else if c = '|' then height? fuel names outer g.choose rest
      else if c = '?' ∨ c = '*' ∨ c = '+' then
        let rest := match rest with
          | '?' :: rest => rest
          | rest => rest
        g.repeated?.bind fun g => height? fuel names outer g rest
      else if c = '{' then none
      else if c = '[' then do
        let (height, rest) ← class? g.switches rest
        height? fuel names outer (g.add height) rest
      else if c = '.' then
        if g.switches.unicode then height? fuel names outer (g.add 0) rest else none
      else if c = '^' ∨ c = '$' then height? fuel names outer (g.add 0) rest
      else do
        let (atom, rest) ← g.switches.single? (c :: rest)
        if g.switches.allows atom then height? fuel names outer (g.add 0) rest else none

def isRegex (cs : List Char) : Bool :=
  match height? (cs.length + 1) [] [] (.opened .initial) cs with
  | some height => height ≤ heightLimit
  | none => false

end Codemod.Regex
