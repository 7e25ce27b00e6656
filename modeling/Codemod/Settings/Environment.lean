import Codemod.Data.Layers
import Codemod.Text.Blank
import Codemod.Text.Digits
import Codemod.Text.Measure
import Codemod.Text.Notation
import Codemod.Text.Split

/-! Settings in environment variables. A variable whose name begins with the program's name and an
underscore holds one setting; two underscores lead into a nested table. Its value may be written in
a small notation of lists and tables, and everything that is not well formed in it is plain text.

A string with escapes keeps of the text before its first escape as many bytes as there are
characters. So it loses what goes beyond ASCII there, and is torn if a character lies across the
place. -/
namespace Codemod.Environment

open Text

def programName : String := "RECODE"

def logVariable : String := "RECODE_LOG"

/-- The variable that keeps colours out of the log, unless it is empty. -/
def plainVariable : String := "NO_COLOR"

def isSeparator (c : Char) : Bool :=
  c == '{' || c == '}' || c == '[' || c == ']' || c == ','

def skipBlanks (cs : List Char) : List Char := cs.dropWhile isAsciiBlank

inductive Quoting where
  | plain
  | escape
  | code (missing : Nat) (value : Nat)
deriving DecidableEq, Repr

def isControl (c : Char) : Bool := c.toNat < 0x20 && c != '\t' || c == '\x7f'

def unescape? : Quoting → List Char → Option (List Char)
  | .plain, [] => some []
  | _, [] => none
  | .plain, c :: rest =>
    if c = '\\' then unescape? .escape rest
    else if isControl c then none
    else (unescape? .plain rest).map (c :: ·)
  | .escape, c :: rest =>
    if c = 'u' then unescape? (.code 4 0) rest
    else if c = 'U' then unescape? (.code 8 0) rest
    else do return (← shortEscape? c) :: (← unescape? .plain rest)
  | .code missing value, c :: rest => do
    let value := value * 16 + (← digitValue? 16 c)
    if missing ≤ 1 then return (← scalar? value) :: (← unescape? .plain rest)
    else unescape? (.code (missing - 1) value) rest

def content (cs : List Char) : Except Misreading (List Char) :=
  let plain := cs.takeWhile (· ≠ '\\')
  if plain.any isControl then .error .malformed
  else if plain = cs then .ok cs
  else do
    let kept ← part cs 0 plain.length
    match unescape? .plain (cs.drop plain.length) with
    | some more => return kept ++ more
    | none => throw .malformed

/-- What stands before the closing quote of a string, and what follows it. No quote closes a string
behind a backslash that is not escaped itself. -/
def closed? (escaped : Bool) : List Char → Option (List Char × List Char)
  | [] => none
  | c :: rest =>
    if c = '"' ∧ !escaped then some ([], rest)
    else (closed? (!escaped && c == '\\') rest).map fun (text, rest) => (c :: text, rest)

def quoted (cs : List Char) : Except Misreading (List Char × List Char) :=
  match closed? false cs with
  | some (text, rest) => (content text).map (·, rest)
  | none => .error .malformed

def integer? (cs : List Char) : Option Int := do
  let (negative, digits) := splitSign cs
  let n ← number? 10 digits
  if negative then
    if n ≤ signedLimit then return -(n : Int) else none
  else if n < unsignedLimit then return n else none

/-- The value of plain text: a number if it reads as one. Only a point makes it a real number. -/
def plainValue (cs : List Char) : Data :=
  if cs.contains '.' && isDecimal cs then .real (String.ofList cs)
  else match integer? cs with
    | some n => .integer n
    | none => .text (String.ofList cs)

def entryName (cs : List Char) : Except Misreading (List Char × List Char) :=
  match cs with
  | '"' :: rest => quoted rest
  | _ =>
    if (cs.takeWhile isNameChar).isEmpty then .error .malformed
    else .ok (cs.takeWhile isNameChar, cs.dropWhile isNameChar)

mutual

/-- Reads a value with the blanks around it. Every second call that goes deeper has consumed a
character, so that twice the length of the text and one more are enough fuel. -/
def value (fuel : Nat) (cs : List Char) : Except Misreading (Data × List Char) :=
  match fuel with
  | 0 => .error .malformed
  | fuel + 1 =>
    match skipBlanks cs with
    | 't' :: 'r' :: 'u' :: 'e' :: rest => .ok (.flag true, skipBlanks rest)
    | 'f' :: 'a' :: 'l' :: 's' :: 'e' :: rest => .ok (.flag false, skipBlanks rest)
    | '{' :: rest =>
      (entries fuel [] rest).map fun (entries, rest) => (.table entries, skipBlanks rest)
    | '[' :: rest => (items fuel rest).map fun (items, rest) => (.list items, skipBlanks rest)
    | '"' :: rest =>
      (quoted rest).map fun (text, rest) => (.text (String.ofList text), skipBlanks rest)
    | '\'' :: rest =>
      match rest with
      | c :: '\'' :: rest => .ok (.text (String.ofList [c]), skipBlanks rest)
      | _ => .error .malformed
    | cs =>
      .ok (plainValue (trim (cs.takeWhile (!isSeparator ·))),
        skipBlanks (cs.dropWhile (!isSeparator ·)))

def items (fuel : Nat) (cs : List Char) : Except Misreading (List Data × List Char) :=
  match fuel with
  | 0 => .error .malformed
  | fuel + 1 =>
    match cs with
    | ']' :: rest => .ok ([], rest)
    | _ => do
      let (item, rest) ← value fuel cs
      match rest with
      | ',' :: rest => (items fuel rest).map fun (more, rest) => (item :: more, rest)
      | ']' :: rest => return ([item], rest)
      | _ => throw .malformed

/-- Reads the entries of a table after its opening brace, through its end. Of two entries with one
name the later holds. -/
def entries (fuel : Nat) (before : List (String × Data)) (cs : List Char) :
    Except Misreading (List (String × Data) × List Char) :=
  match fuel with
  | 0 => .error .malformed
  | fuel + 1 =>
    match cs with
    | '}' :: rest => .ok (before, rest)
    | _ => do
      let (name, rest) ← entryName (skipBlanks cs)
      match skipBlanks rest with
      | '=' :: rest =>
        let (item, rest) ← value fuel rest
        let before := Data.insert before (String.ofList name) item
        match rest with
        | ',' :: rest => entries fuel before rest
        | '}' :: rest => return (before, rest)
        | _ => throw .malformed
      | _ => throw .malformed

end

/-- The value that a variable's text stands for. Text that is not well formed stands for itself, and
text in which a string is torn for nothing. -/
def valueOf? (text : String) : Option Data :=
  match value (2 * text.toList.length + 2) text.toList with
  | .ok (d, []) => some d
  | .error .torn => none
  | _ => some (.text text)

def afterPrefix? : List Char → List Char → Option (List Char)
  | [], cs => some cs
  | _ :: _, [] => none
  | p :: ps, c :: cs => if p.toLower = c.toLower then afterPrefix? ps cs else none

def cutPairs : List Char → List (List Char)
  | [] => [[]]
  | '_' :: '_' :: rest => [] :: cutPairs rest
  | c :: rest =>
    match cutPairs rest with
    | [] => [[c]]
    | part :: parts => (c :: part) :: parts

/-- Where a variable's setting stands, if the variable is one of the program's. Points divide a
name like pairs of underscores, and no part of a name may be empty. -/
def place? (program name : String) : Option (List String) := do
  let rest ← afterPrefix? (program.toList ++ ['_']) (trim name.toList)
  let parts := (cutPairs (trim rest)).flatMap (splitOn '.')
  if parts.any List.isEmpty then none
  else return parts.map fun part => String.ofList (part.map Char.toLower)

/-- The layer of settings that variables hold, of which later ones lie on top of earlier ones. There
is none if one of them stands for nothing. -/
def layer? (program : String) (environment : List (String × String)) : Option Data :=
  environment.foldlM (fun below (name, text) =>
    match place? program name with
    | some path => (valueOf? text).map fun value => below.merge (Data.nest path value)
    | none => some below) (.table [])

end Codemod.Environment
