import Codemod.Text.Digits
import Codemod.Text.Notation

/-! The tokens of TOML. A machine reads the text character by character; its state is what the
characters read so far leave open. Comments yield no token. -/
namespace Codemod.Toml

inductive Token where
  | blank
  | newline
  | mark (c : Char)
  /-- Bare names, numbers and dates, with the points in them. -/
  | word (letters : List Char)
  | text (content : List Char)
  | block (content : List Char)
deriving DecidableEq, Repr

/-- Strings in double quotes have escapes, strings in single quotes have none. -/
inductive Quote where
  | double
  | single
deriving DecidableEq, Repr

def Quote.char : Quote → Char
  | .double => '"'
  | .single => '\''

/-- What is open. The content of words and strings is kept in reverse. -/
inductive Lexing where
  | between
  | word (letters : List Char)
  /-- A date and one space, after which a time may follow in the same word. -/
  | date (letters : List Char)
  | comment
  | lineEnd
  /-- One or two quotes that may still become three. -/
  | quotes (q : Quote) (two : Bool)
  | string (q : Quote) (content : List Char)
  | escape (inBlock : Bool) (content : List Char)
  | code (inBlock : Bool) (content : List Char) (missing value : Nat)
  | blockStart (q : Quote)
  /-- Inside triple quotes, after `run` quotes in a row. -/
  | block (q : Quote) (content : List Char) (run : Nat)
  | blockLineEnd (q : Quote) (content : List Char) (atStart : Bool)
  /-- After a backslash at the end of a line, where blanks and line breaks are no content. -/
  | joining (content : List Char) (broken : Bool)
  | joiningLineEnd (content : List Char)
deriving DecidableEq, Repr

def isMark (c : Char) : Bool :=
  c == '[' || c == ']' || c == '{' || c == '}' || c == ',' || c == '='

def isWordChar (c : Char) : Bool :=
  c.isAlphanum || c == '_' || c == '-' || c == '.' || c == '+' || c == ':'

def isContent (c : Char) : Bool := c == '\t' || (0x20 ≤ c.toNat && c != '\x7f')

def isDate (letters : List Char) : Bool :=
  match letters with
  | [a, b, c, d, '-', e, f, '-', g, h] => [a, b, c, d, e, f, g, h].all Text.isDigit
  | _ => false

namespace Lexing

abbrev Next := Option (List Token × Lexing)

def go (state : Lexing) : Next := some ([], state)

def emit (token : Token) (next : Next) : Next := next.map fun n => (token :: n.1, n.2)

def fresh (c : Char) : Next :=
  if c = ' ' ∨ c = '\t' then some ([.blank], .between)
  else if c = '\n' then some ([.newline], .between)
  else if c = '\r' then go .lineEnd
  else if c = '#' then go .comment
  else if c = '"' then go (.quotes .double false)
  else if c = '\'' then go (.quotes .single false)
  else if isMark c then some ([.mark c], .between)
  else if isWordChar c then go (.word [c])
  else none

def stringStep (q : Quote) (content : List Char) (c : Char) : Next :=
  if c = q.char then some ([.text content.reverse], .between)
  else if q = .double ∧ c = '\\' then go (.escape false content)
  else if isContent c then go (.string q (c :: content))
  else none

/-- A character between triple quotes. Three to five quotes in a row end the string, the last
three of them as its end and the others as content. -/
def blockStep (q : Quote) (content : List Char) (run : Nat) (c : Char) : Next :=
  if c = q.char ∧ run < 5 then go (.block q content (run + 1))
  else if 3 ≤ run then
    emit (.block (List.replicate (run - 3) q.char ++ content).reverse) (fresh c)
  else
    let content := List.replicate run q.char ++ content
    if q = .double ∧ c = '\\' then go (.escape true content)
    else if c = '\r' then go (.blockLineEnd q content false)
    else if c = '\n' ∨ isContent c then go (.block q (c :: content) 0)
    else none

def resume (inBlock : Bool) (content : List Char) : Lexing :=
  if inBlock then .block .double content 0 else .string .double content

def escapeStep (inBlock : Bool) (content : List Char) (c : Char) : Next :=
  if c = 'u' then go (.code inBlock content 4 0)
  else if c = 'U' then go (.code inBlock content 8 0)
  else match Text.shortEscape? c with
    | some e => go (resume inBlock (e :: content))
    | none =>
      if !inBlock then none
      else if c = '\n' then go (.joining content true)
      else if c = '\r' then go (.joiningLineEnd content)
      else if c = ' ' ∨ c = '\t' then go (.joining content false)
      else none

def codeStep (inBlock : Bool) (content : List Char) (missing value : Nat) (c : Char) : Next := do
  let digit ← Text.digitValue? 16 c
  let value := value * 16 + digit
  if missing ≤ 1 then
    let e ← Text.scalar? value
    go (resume inBlock (e :: content))
  else go (.code inBlock content (missing - 1) value)

def step (state : Lexing) (c : Char) : Next :=
  match state with
  | .between => fresh c
  | .word letters =>
    if isWordChar c then go (.word (c :: letters))
    else if c = ' ' ∧ isDate letters.reverse then go (.date letters)
    else emit (.word letters.reverse) (fresh c)
  | .date letters =>
    if Text.isDigit c then go (.word (c :: ' ' :: letters))
    else emit (.word letters.reverse) (emit .blank (fresh c))
  | .comment =>
    if c = '\n' then some ([.newline], .between)
    else if c = '\r' then go .lineEnd
    else if isContent c then go .comment
    else none
  | .lineEnd => if c = '\n' then some ([.newline], .between) else none
  | .quotes q false =>
    if c = q.char then go (.quotes q true) else stringStep q [] c
  | .quotes q true =>
    if c = q.char then go (.blockStart q) else emit (.text []) (fresh c)
  | .string q content => stringStep q content c
  | .escape inBlock content => escapeStep inBlock content c
  | .code inBlock content missing value => codeStep inBlock content missing value c
  | .blockStart q =>
    if c = '\n' then go (.block q [] 0)
    else if c = '\r' then go (.blockLineEnd q [] true)
    else blockStep q [] 0 c
  | .block q content run => blockStep q content run c
  | .blockLineEnd q content atStart =>
    if c = '\n' then go (.block q (if atStart then content else '\n' :: content) 0) else none
  | .joining content broken =>
    if c = ' ' ∨ c = '\t' then go (.joining content broken)
    else if c = '\n' then go (.joining content true)
    else if c = '\r' then go (.joiningLineEnd content)
    else if broken then blockStep .double content 0 c
    else none
  | .joiningLineEnd content => if c = '\n' then go (.joining content true) else none

def finish : Lexing → Option (List Token)
  | .between | .comment => some []
  | .word letters => some [.word letters.reverse]
  | .date letters => some [.word letters.reverse, .blank]
  | .quotes _ true => some [.text []]
  | .block q content run =>
    if 3 ≤ run then some [.block (List.replicate (run - 3) q.char ++ content).reverse] else none
  | _ => none

end Lexing

def tokensFrom (state : Lexing) : List Char → Option (List Token)
  | [] => state.finish
  | c :: rest => do
    let next ← state.step c
    let tokens ← tokensFrom next.2 rest
    return next.1 ++ tokens

/-- The tokens of a text. A byte order mark in front is ignored. -/
def tokens (text : List Char) : Option (List Token) :=
  match text with
  | '\uFEFF' :: rest => tokensFrom .between rest
  | _ => tokensFrom .between text

end Codemod.Toml
