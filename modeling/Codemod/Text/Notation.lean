import Codemod.Text.Digits

/-! What the notations for structured data have in common: bare names, signs and decimal forms of
numbers, and the escapes of one letter in quoted text. -/
namespace Codemod.Text

/-- The characters of a name that needs no quotes: ASCII letters, digits, underscores and
dashes. -/
def isNameChar (c : Char) : Bool := c.isAlphanum || c == '_' || c == '-'

def splitSign : List Char → Bool × List Char
  | '-' :: rest => (true, rest)
  | '+' :: rest => (false, rest)
  | cs => (false, cs)

/-- A decimal number: perhaps a sign, digits with at most one point among or around them, and
perhaps an exponent. -/
def isDecimal (cs : List Char) : Bool :=
  let body := (splitSign cs).2
  let whole := body.takeWhile isDigit
  let (fraction, rest) := match body.dropWhile isDigit with
    | '.' :: rest => (rest.takeWhile isDigit, rest.dropWhile isDigit)
    | rest => ([], rest)
  !(whole.isEmpty && fraction.isEmpty) &&
    match rest with
    | [] => true
    | e :: rest =>
      let digits := (splitSign rest).2
      (e == 'e' || e == 'E') && !digits.isEmpty && digits.all isDigit

def shortEscape? (c : Char) : Option Char :=
  if c = '"' then some '"'
  else if c = '\\' then some '\\'
  else if c = 'b' then some '\x08'
  else if c = 'f' then some '\x0c'
  else if c = 'n' then some '\n'
  else if c = 'r' then some '\r'
  else if c = 't' then some '\t'
  else none

end Codemod.Text
