import Codemod.Calendar
import Codemod.Data.Basic
import Codemod.Text.Digits
import Codemod.Text.Notation
import Codemod.Text.Split

/-! The values that TOML writes as bare words: flags, whole numbers, numbers with a fraction or an
exponent, dates and times. -/
namespace Codemod.Toml

open Text

/-- The digits of a number in which single underscores may stand between digits. -/
def plainDigits? (base : Nat) (cs : List Char) : Option (List Char) :=
  let parts := splitOn '_' cs
  if parts.all fun part => !part.isEmpty && part.all fun c => (digitValue? base c).isSome then
    some parts.flatten
  else none

def wholeDigits? (cs : List Char) : Option (List Char) := do
  let digits ← plainDigits? 10 cs
  if digits.head? = some '0' ∧ digits.length ≠ 1 then none else return digits

def integer? (cs : List Char) : Option Data :=
  match cs with
  | '0' :: 'x' :: digits => based 16 digits
  | '0' :: 'o' :: digits => based 8 digits
  | '0' :: 'b' :: digits => based 2 digits
  | _ => do
    let (negative, body) := splitSign cs
    let n ← number? 10 (← wholeDigits? body)
    if negative then
      if n ≤ signedLimit then return .integer (-(n : Int)) else none
    else if n < signedLimit then return .integer n else none
where
  based (base : Nat) (digits : List Char) : Option Data := do
    let n ← number? base (← plainDigits? base digits)
    if n < signedLimit then return .integer n else none

/-- Whether `digits` times ten to the power of `exponent` rounds to a finite number of double
precision: it lies below the middle between the largest such number and the next power of two. -/
def isFinite (digits : Nat) (exponent : Int) : Bool :=
  let size := (toString digits).length + exponent
  if digits = 0 ∨ size < 300 then true
  else if 320 < size then false
  else
    let limit := Nat.pow 2 1024 - Nat.pow 2 970
    if 0 ≤ exponent then digits * Nat.pow 10 exponent.toNat < limit
    else digits < limit * Nat.pow 10 (-exponent).toNat

def exponent? (cs : List Char) : Option Int := do
  let (negative, body) := splitSign cs
  let n ← number? 10 (← plainDigits? 10 body)
  return if negative then -(n : Int) else n

def decimal? (cs : List Char) : Option Data := do
  let (negative, body) := splitSign cs
  let isExponentMark (c : Char) : Bool := c == 'e' || c == 'E'
  let mantissa := body.takeWhile (!isExponentMark ·)
  let exponent ← match body.dropWhile (!isExponentMark ·) with
    | [] => some none
    | _ :: rest => (exponent? rest).map some
  let (whole, fraction) ← match splitOn '.' mantissa with
    | [whole] => some (whole, none)
    | [whole, fraction] => (plainDigits? 10 fraction).map fun f => (whole, some f)
    | _ => none
  let whole ← wholeDigits? whole
  if exponent.isNone ∧ fraction.isNone then none
  else
    let fraction := fraction.getD []
    let digits ← number? 10 (whole ++ fraction)
    if negative || isFinite digits (exponent.getD 0 - fraction.length) then
      return .real (String.ofList cs)
    else none

def special? (cs : List Char) : Option Data :=
  let body := (splitSign cs).2
  if body = ['i', 'n', 'f'] ∨ body = ['n', 'a', 'n'] then some (.real (String.ofList cs)) else none

def twoDigits? (low high : Nat) (cs : List Char) : Option (Nat × List Char) :=
  match cs with
  | a :: b :: rest => do
    let n ← number? 10 [a, b]
    if low ≤ n ∧ n ≤ high then return (n, rest) else none
  | _ => none

def skip? (c : Char) (cs : List Char) : Option (List Char) :=
  match cs with
  | x :: rest => if x = c then some rest else none
  | [] => none

def dropDate? (cs : List Char) : Option (List Char) := do
  let year ← if (cs.take 4).length = 4 then number? 10 (cs.take 4) else none
  let (month, rest) ← twoDigits? 1 12 (← skip? '-' (cs.drop 4))
  let (_, rest) ← twoDigits? 1 (Calendar.daysInMonth year month) (← skip? '-' rest)
  return rest

/-- Drops a time of day, in which a leap second may occur. -/
def dropTime? (cs : List Char) : Option (List Char) := do
  let (_, rest) ← twoDigits? 0 23 cs
  let (_, rest) ← twoDigits? 0 59 (← skip? ':' rest)
  let (_, rest) ← twoDigits? 0 60 (← skip? ':' rest)
  match rest with
  | '.' :: rest => if (rest.takeWhile isDigit).isEmpty then none else return rest.dropWhile isDigit
  | _ => return rest

def dropOffset? (cs : List Char) : Option (List Char) :=
  match cs with
  | c :: rest =>
    if c = 'Z' ∨ c = 'z' then some rest
    else if c = '+' ∨ c = '-' then do
      let (_, rest) ← twoDigits? 0 23 rest
      let (_, rest) ← twoDigits? 0 59 (← skip? ':' rest)
      return rest
    else some cs
  | [] => some []

def isMoment (cs : List Char) : Bool :=
  match dropDate? cs with
  | some [] => true
  | some (c :: rest) =>
    (c == 'T' || c == 't' || c == ' ') && (dropTime? rest).bind dropOffset? == some []
  | none => dropTime? cs == some []

/-- A date or time is a table of its own, so that it is never taken for text. -/
def moment (cs : List Char) : Data := .table [("$date", .text (String.ofList cs))]

def scalar? (cs : List Char) : Option Data :=
  if cs = ['t', 'r', 'u', 'e'] then some (.flag true)
  else if cs = ['f', 'a', 'l', 's', 'e'] then some (.flag false)
  else (((integer? cs).or (decimal? cs)).or (special? cs)).or
    (if isMoment cs then some (moment cs) else none)

end Codemod.Toml
