import Codemod.Data.Basic
import Codemod.Text.Digits
import Codemod.Text.Notation

/-! Reading JSON by two machines: one over characters, which yields tokens, and one over tokens,
which keeps the open lists and tables on a stack. Each looks at every input symbol once. -/
namespace Codemod.Json

inductive Token where
  | mark (c : Char)
  | text (s : String)
  /-- A number or one of the three names, as written. -/
  | word (letters : List Char)
deriving DecidableEq, Repr

/-- What the characters read so far leave open. The characters of a word or string are kept in
reverse. -/
inductive Lexing where
  | between
  | word (letters : List Char)
  | string (read : List Char)
  | escape (read : List Char)
  /-- Inside a `\u` escape: digits still missing and their value so far, and the high surrogate
  that the escape must complete, if there is one. -/
  | code (read : List Char) (high : Option Nat) (missing : Nat) (value : Nat)
  | pair (read : List Char) (high : Nat)
  | pairEscape (read : List Char) (high : Nat)
deriving DecidableEq, Repr

def isSpace (c : Char) : Bool := c == ' ' || c == '\n' || c == '\r' || c == '\t'

def isMark (c : Char) : Bool :=
  c == '[' || c == ']' || c == '{' || c == '}' || c == ',' || c == ':'

def fresh (c : Char) : List Token × Lexing :=
  if isSpace c then ([], .between)
  else if isMark c then ([.mark c], .between)
  else if c = '"' then ([], .string [])
  else ([], .word [c])

def shortEscape? (c : Char) : Option Char :=
  if c = '/' then some '/' else Text.shortEscape? c

/-- The state after a complete `\u` escape; surrogates must come in pairs. -/
def finishCode (read : List Char) (high : Option Nat) (value : Nat) : Option Lexing :=
  match high with
  | some h =>
    if 0xDC00 ≤ value ∧ value ≤ 0xDFFF then
      some (.string (Char.ofNat (0x10000 + (h - 0xD800) * 0x400 + (value - 0xDC00)) :: read))
    else none
  | none =>
    if 0xD800 ≤ value ∧ value ≤ 0xDBFF then some (.pair read value)
    else if 0xDC00 ≤ value ∧ value ≤ 0xDFFF then none
    else some (.string (Char.ofNat value :: read))

def lexStep : Lexing → Char → Option (List Token × Lexing)
  | .between, c => some (fresh c)
  | .word letters, c =>
    if isSpace c || isMark c || c == '"' then
      let next := fresh c
      some (.word letters.reverse :: next.1, next.2)
    else some ([], .word (c :: letters))
  | .string read, c =>
    if c = '"' then some ([.text (String.ofList read.reverse)], .between)
    else if c = '\\' then some ([], .escape read)
    else if c.toNat < 0x20 then none
    else some ([], .string (c :: read))
  | .escape read, c =>
    if c = 'u' then some ([], .code read none 4 0)
    else (shortEscape? c).map fun e => ([], .string (e :: read))
  | .code read high missing value, c => do
    let digit ← Text.digitValue? 16 c
    let value := value * 16 + digit
    if missing ≤ 1 then
      let next ← finishCode read high value
      return ([], next)
    else return ([], .code read high (missing - 1) value)
  | .pair read high, c => if c = '\\' then some ([], .pairEscape read high) else none
  | .pairEscape read high, c => if c = 'u' then some ([], .code read (some high) 4 0) else none

def lex : Lexing → List Char → Option (List Token)
  | .between, [] => some []
  | .word letters, [] => some [.word letters.reverse]
  | _, [] => none
  | state, c :: rest => do
    let next ← lexStep state c
    let tokens ← lex next.2 rest
    return next.1 ++ tokens

def dropFraction : List Char → Option (List Char)
  | '.' :: rest =>
    if (rest.takeWhile Text.isDigit).isEmpty then none else some (rest.dropWhile Text.isDigit)
  | rest => some rest

def dropExponent : List Char → Option (List Char)
  | [] => some []
  | e :: rest =>
    if e = 'e' ∨ e = 'E' then
      let digits := match rest with
        | '+' :: digits | '-' :: digits => digits
        | digits => digits
      if (digits.takeWhile Text.isDigit).isEmpty then none else some (digits.dropWhile Text.isDigit)
    else some (e :: rest)

/-- A number without superfluous zeros in front. A negative zero is no whole number. -/
def number? (letters : List Char) : Option Data := do
  let negative := letters.head? == some '-'
  let body := if negative then letters.drop 1 else letters
  let whole := body.takeWhile Text.isDigit
  let value ← Text.number? 10 whole
  if whole.head? = some '0' ∧ whole.length ≠ 1 then none
  else
    match body.dropWhile Text.isDigit with
    | [] =>
      if negative then
        return if value = 0 then .real "-0" else .integer (-(value : Int))
      else return .integer value
    | rest =>
      let rest ← dropExponent (← dropFraction rest)
      if rest.isEmpty then return .real (String.ofList letters) else none

def wordValue? (letters : List Char) : Option Data :=
  if letters = ['n', 'u', 'l', 'l'] then some .null
  else if letters = ['t', 'r', 'u', 'e'] then some (.flag true)
  else if letters = ['f', 'a', 'l', 's', 'e'] then some (.flag false)
  else number? letters

/-- A list or table that is still open, with what it holds so far in reverse. -/
inductive Frame where
  | list (items : List Data)
  | table (entries : List (String × Data)) (name : String)
deriving Repr

inductive Expecting where
  /-- A value, or the end of the innermost list if it is still empty. -/
  | value (first : Bool) (stack : List Frame)
  | name (first : Bool) (entries : List (String × Data)) (stack : List Frame)
  | colon (entries : List (String × Data)) (name : String) (stack : List Frame)
  | after (value : Data) (stack : List Frame)
deriving Repr

def readStep : Expecting → Token → Option Expecting
  | .value _ stack, .text s => some (.after (.text s) stack)
  | .value _ stack, .word letters => (wordValue? letters).map (.after · stack)
  | .value _ stack, .mark '[' => some (.value true (.list [] :: stack))
  | .value _ stack, .mark '{' => some (.name true [] stack)
  | .value true (.list items :: stack), .mark ']' => some (.after (.list items.reverse) stack)
  | .name _ entries stack, .text s => some (.colon entries s stack)
  | .name true entries stack, .mark '}' => some (.after (.table entries.reverse) stack)
  | .colon entries name stack, .mark ':' => some (.value false (.table entries name :: stack))
  | .after v (.list items :: stack), .mark ',' => some (.value false (.list (v :: items) :: stack))
  | .after v (.list items :: stack), .mark ']' => some (.after (.list (v :: items).reverse) stack)
  | .after v (.table entries name :: stack), .mark ',' =>
    some (.name false ((name, v) :: entries) stack)
  | .after v (.table entries name :: stack), .mark '}' =>
    some (.after (.table ((name, v) :: entries).reverse) stack)
  | _, _ => none

def readTokens : Expecting → List Token → Option Data
  | .after v [], [] => some v
  | _, [] => none
  | state, token :: rest =>
    match readStep state token with
    | some next => readTokens next rest
    | none => none

def read (text : String) : Option Data :=
  (lex .between text.toList).bind (readTokens (.value false []))

end Codemod.Json
