import Codemod.Toml.Scalar
import Codemod.Toml.Token
import Codemod.Toml.Tree

/-! The statements of TOML: headers, and keys with their values. A machine reads the tokens one by
one and keeps the open arrays and inline tables of a value on a stack. -/
namespace Codemod.Toml

/-- A dotted key: its last name, and the names before it. -/
structure Key where
  path : List String
  name : String
deriving DecidableEq, Repr

inductive Statement where
  | assign (key : Key) (value : Data)
  | table (key : Key)
  | element (key : Key)
deriving Repr

/-- The greatest number of names in a key, and of arrays and inline tables inside each other. -/
def depthLimit : Nat := 79

def wordParts (letters : List Char) : List (Option (List Char)) :=
  (((splitOn '.' letters).map some).intersperse none).filter (· != some [])

/-- The names and points of a key. Names without quotes consist of letters, digits, dashes and
underscores. -/
def keyParts? : List Token → Option (List (Option (List Char)))
  | [] => some []
  | .blank :: rest => keyParts? rest
  | .text content :: rest => (keyParts? rest).map (some content :: ·)
  | .word letters :: rest =>
    if letters.all fun c => Text.isNameChar c || c == '.' then
      (keyParts? rest).map (wordParts letters ++ ·)
    else none
  | _ => none

def names? : List (Option (List Char)) → Option (List String)
  | [some name] => some [String.ofList name]
  | some name :: none :: rest => (names? rest).map (String.ofList name :: ·)
  | _ => none

def key? (tokens : List Token) : Option Key := do
  let names ← names? (← keyParts? tokens)
  if names.length ≤ depthLimit then return ⟨names.dropLast, ← names.getLast?⟩ else none

inductive Frame where
  | array (items : List Data)
  | inline (entries : Entries) (key : Key)
deriving Repr

/-- What the tokens read so far leave open. The tokens of a key are kept in reverse. -/
inductive Reading where
  | lineStart
  | bracket
  | header (double : Bool) (tokens : List Token)
  /-- The first of the two brackets that end the header of an element. -/
  | headerEnd (key : Key)
  | names (tokens : List Token)
  | awaiting (key : Key) (stack : List Frame)
  /-- A key in an inline table, which may end here if it is still empty. -/
  | inlineKey (key : Key) (entries : Entries) (tokens : List Token) (stack : List Frame)
  | after (key : Key) (value : Data) (stack : List Frame)
  | lineEnd
deriving Repr

namespace Reading

abbrev Next := Option (Option Statement × Reading)

def go (state : Reading) : Next := some (none, state)

def emit (statement : Statement) (state : Reading) : Next := some (some statement, state)

def isKeyToken : Token → Bool
  | .blank | .word _ | .text _ => true
  | _ => false

def headerStep (double : Bool) (tokens : List Token) (token : Token) : Next :=
  if token = .mark ']' then do
    let key ← key? tokens.reverse
    if double then go (.headerEnd key) else emit (.table key) .lineEnd
  else if isKeyToken token then go (.header double (token :: tokens))
  else none

def push (frame : Frame) (stack : List Frame) : Option (List Frame) :=
  if stack.length < depthLimit then some (frame :: stack) else none

def valueStep (key : Key) (stack : List Frame) (token : Token) : Next :=
  match token, stack with
  | .blank, _ => go (.awaiting key stack)
  | .newline, .array _ :: _ => go (.awaiting key stack)
  | .text content, _ | .block content, _ => go (.after key (.text (String.ofList content)) stack)
  | .word letters, _ => do go (.after key (← scalar? letters) stack)
  | .mark '[', _ => do go (.awaiting key (← push (.array []) stack))
  | .mark '{', _ =>
    if stack.length < depthLimit then go (.inlineKey key [] [] stack) else none
  | .mark ']', .array items :: stack => go (.after key (.list items.reverse) stack)
  | _, _ => none

def inlineKeyStep (key : Key) (entries : Entries) (tokens : List Token) (stack : List Frame)
    (token : Token) : Next :=
  if token = .mark '=' then do
    let inner ← key? tokens.reverse
    go (.awaiting key (.inline entries inner :: stack))
  else if token = .mark '}' then
    if entries.isEmpty ∧ tokens.all (· = .blank) then go (.after key (.table []) stack) else none
  else if isKeyToken token then go (.inlineKey key entries (token :: tokens) stack)
  else none

def afterStep (key : Key) (value : Data) (stack : List Frame) (token : Token) : Next :=
  match token, stack with
  | .blank, _ => go (.after key value stack)
  | .newline, [] => emit (.assign key value) .lineStart
  | .newline, .array _ :: _ => go (.after key value stack)
  | .mark ',', .array items :: stack => go (.awaiting key (.array (value :: items) :: stack))
  | .mark ']', .array items :: stack => go (.after key (.list (value :: items).reverse) stack)
  | .mark ',', .inline entries inner :: stack => do
    go (.inlineKey key (← Entries.assign inner.path inner.name value entries) [] stack)
  | .mark '}', .inline entries inner :: stack => do
    let entries ← Entries.assign inner.path inner.name value entries
    go (.after key (.table (Node.entriesToData entries)) stack)
  | _, _ => none

def step (state : Reading) (token : Token) : Next :=
  match state with
  | .lineStart =>
    match token with
    | .blank | .newline => go .lineStart
    | .mark '[' => go .bracket
    | .word _ | .text _ => go (.names [token])
    | _ => none
  | .bracket =>
    if token = .mark '[' then go (.header true []) else headerStep false [] token
  | .header double tokens => headerStep double tokens token
  | .headerEnd key => if token = .mark ']' then emit (.element key) .lineEnd else none
  | .names tokens =>
    if token = .mark '=' then do go (.awaiting (← key? tokens.reverse) [])
    else if isKeyToken token then go (.names (token :: tokens))
    else none
  | .awaiting key stack => valueStep key stack token
  | .inlineKey key entries tokens stack => inlineKeyStep key entries tokens stack token
  | .after key value stack => afterStep key value stack token
  | .lineEnd =>
    match token with
    | .blank => go .lineEnd
    | .newline => go .lineStart
    | _ => none

def finish : Reading → Option (List Statement)
  | .lineStart | .lineEnd => some []
  | .after key value [] => some [.assign key value]
  | _ => none

end Reading

def statementsFrom (state : Reading) : List Token → Option (List Statement)
  | [] => state.finish
  | token :: rest => do
    let next ← state.step token
    let statements ← statementsFrom next.2 rest
    return next.1.toList ++ statements

def statements (tokens : List Token) : Option (List Statement) := statementsFrom .lineStart tokens

end Codemod.Toml
