import Codemod.Regex.Atom
import Codemod.Regex.Height

/-! Classes of characters in brackets. A class holds characters, ranges, named classes and further
classes in brackets, and `&&`, `--` and `~~` stand between them. -/
namespace Codemod.Regex

def classNames : List String :=
  ["alnum", "alpha", "ascii", "blank", "cntrl", "digit", "graph", "lower", "print", "punct",
    "space", "upper", "word", "xdigit"]

/-- Reads a named class such as `[:alpha:]` or `[:^alpha:]` after its first bracket. -/
def namedClass? (cs : List Char) : Option (Bool × List Char) :=
  match cs with
  | ':' :: '^' :: rest => (named rest).map (true, ·)
  | ':' :: rest => (named rest).map (false, ·)
  | _ => none
where
  named (cs : List Char) : Option (List Char) :=
    match cs.dropWhile (· ≠ ':') with
    | ':' :: ']' :: rest =>
      if classNames.contains (String.ofList (cs.takeWhile (· ≠ ':'))) then some rest else none
    | _ => none

namespace Switches

def allowsNamed (s : Switches) (negated : Bool) : Bool :=
  if s.unicode then !s.caseless else !negated

def single? (s : Switches) : List Char → Option (Atom × List Char)
  | [] => none
  | c :: rest => if c = '\\' then escape? s rest else some (.literal c false, rest)

/-- Reads a single part of a class, or a range between two characters in order. A dash that another
dash or the end of the class seems to follow makes no range. -/
def member? (s : Switches) (cs : List Char) : Option (List Char) := do
  let (first, rest) ← s.single? cs
  let alone := if s.allowsInClass first then some (s.skip rest) else none
  match s.skip rest with
  | '-' :: more =>
    if s.peek? more = some ']' ∨ s.peek? more = some '-' then alone
    else
      let (last, rest) ← s.single? (s.skip more)
      match first, last with
      | .literal a _, .literal b _ =>
        if a ≤ b && s.allowsMember a && s.allowsMember b then some rest else none
      | _, _ => none
  | _ => alone

/-- Drops the mark of a class of all other characters. Of bytes there is no such class, since some
of the others are no characters. -/
def dropNegation? (s : Switches) (cs : List Char) : Option (List Char) :=
  match s.skip cs with
  | '^' :: rest => if s.unicode then some rest else none
  | cs => some cs

end Switches

/-- What has been read of a class. At its beginning dashes stand for themselves, and at its very
beginning so does a closing bracket. -/
inductive Reading where
  | nothing
  | dashes
  | more
deriving DecidableEq, Repr

structure Brackets where
  reading : Reading
  before : Option Nat
  parts : List Nat
deriving DecidableEq, Repr

namespace Brackets

def opened : Brackets := ⟨.nothing, none, []⟩

def add (b : Brackets) (height : Nat) : Brackets :=
  { b with reading := .more, parts := height :: b.parts }

def height (b : Brackets) : Nat :=
  match b.before with
  | some before => max before (joined b.parts) + 1
  | none => joined b.parts

def split (b : Brackets) : Brackets := ⟨.more, some b.height, []⟩

end Brackets

/-- Reads on in a class within other ones, up to the end of the outermost, and returns the height of
that class. Every step consumes a character, so that the length of the text and one more are enough
fuel. -/
def inClass? (fuel : Nat) (s : Switches) (outer : List Brackets) (b : Brackets)
    (cs : List Char) : Option (Nat × List Char) :=
  match fuel with
  | 0 => none
  | fuel + 1 =>
    match s.skip cs with
    | [] => none
    | c :: rest =>
      if c = '-' ∧ b.reading ≠ .more then
        if s.allowsMember c then
          inClass? fuel s outer { b.add 0 with reading := .dashes } rest
        else none
      else if c = ']' ∧ b.reading = .nothing then
        if s.allowsMember c then inClass? fuel s outer (b.add 0) rest else none
      else if c = ']' then
        match outer with
        | [] => some (b.height + 1, rest)
        | around :: outer => inClass? fuel s outer (around.add (b.height + 1)) rest
      else if c = '[' then
        match namedClass? rest with
        | some (negated, rest) =>
          if s.allowsNamed negated then inClass? fuel s outer (b.add 0) rest else none
        | none => (s.dropNegation? rest).bind (inClass? fuel s (b :: outer) .opened)
      else
        match c, rest with
        | '&', '&' :: rest | '-', '-' :: rest | '~', '~' :: rest =>
          inClass? fuel s outer b.split rest
        | _, _ => (s.member? (c :: rest)).bind (inClass? fuel s outer (b.add 0))

def class? (s : Switches) (cs : List Char) : Option (Nat × List Char) :=
  (s.dropNegation? cs).bind (inClass? (cs.length + 1) s [] .opened)

end Codemod.Regex
