import Codemod.Settings.Basic
import Codemod.Text.Digits

/-! Settings written as TOML. A string is written in a quoting form that needs no escapes if there
is one, and a list of two or more items takes a line for each item. -/
namespace Codemod.Toml

def longestRun (c : Char) : List Char → Nat → Nat
  | [], run => run
  | x :: rest, run => if x = c then longestRun c rest (run + 1) else max run (longestRun c rest 0)

def isPlain (c : Char) : Bool :=
  Text.isDigit c || ('a' ≤ c && c ≤ 'z') || ('A' ≤ c && c ≤ 'Z') ||
    c == '_' || c == '-' || c == '.' || c == '/' || c == ' ' || c == ':'

def isControl (c : Char) : Bool := (c.toNat < 0x20 && c != '\t' && c != '\n') || c == '\x7f'

/-- The four forms of a string: in double quotes with escapes or in single quotes without, on one
line or between triple quotes. -/
inductive Form where
  | basic
  | literal
  | blockBasic
  | blockLiteral
deriving DecidableEq, Repr

def Form.ofText (cs : List Char) : Form :=
  if cs.all isPlain then .basic
  else
    let control := cs.any isControl
    let escaped := cs.contains '\\'
    let broken := cs.contains '\n'
    let double := longestRun '"' cs 0
    let single := longestRun '\'' cs 0
    if !control && !escaped && double == 0 && !broken then .basic
    else if !control && single == 0 && !broken then .literal
    else if !control && !escaped && double ≤ 2 then .blockBasic
    else if !control && single ≤ 2 then .blockLiteral
    else if broken then .blockBasic
    else .basic

def escape (block : Bool) (c : Char) : List Char :=
  if c = '\x08' then ['\\', 'b']
  else if c = '\t' then ['\\', 't']
  else if c = '\n' then if block then ['\n'] else ['\\', 'n']
  else if c = '\x0c' then ['\\', 'f']
  else if c = '\r' then ['\\', 'r']
  else if c = '\\' then ['\\', '\\']
  else if c.toNat < 0x20 ∨ c = '\x7f' then
    ['\\', 'u', '0', '0', Text.upperHexDigit (c.toNat / 16), Text.upperHexDigit (c.toNat % 16)]
  else [c]

def basicBody (cs : List Char) : List Char :=
  cs.flatMap fun c => if c = '"' then ['\\', '"'] else escape false c

/-- The content of a string between triple double quotes, after `run` quotes in a row. A quote is
escaped if it would be the third. -/
def blockBody : Nat → List Char → List Char
  | _, [] => []
  | run, c :: rest =>
    if c = '"' then
      if run = 2 then '\\' :: '"' :: blockBody 0 rest else '"' :: blockBody (run + 1) rest
    else escape true c ++ blockBody 0 rest

def opening (cs : List Char) : List Char := if cs.contains '\n' then ['\n'] else []

def writeString (s : String) : List Char :=
  let cs := s.toList
  match Form.ofText cs with
  | .basic => '"' :: (basicBody cs ++ ['"'])
  | .literal => '\'' :: (cs ++ ['\''])
  | .blockBasic => ['"', '"', '"'] ++ opening cs ++ blockBody 0 cs ++ ['"', '"', '"']
  | .blockLiteral => ['\'', '\'', '\''] ++ opening cs ++ cs ++ ['\'', '\'', '\'']

def writeFlag : Bool → List Char
  | true => "true".toList
  | false => "false".toList

def writeStrings : List String → List Char
  | [] => ['[', ']']
  | [s] => '[' :: (writeString s ++ [']'])
  | strings => '[' :: '\n' :: (strings.flatMap fun s =>
      [' ', ' ', ' ', ' '] ++ writeString s ++ [',', '\n']) ++ [']']

def entry (key : String) (value : List Char) : List Char :=
  key.toList ++ [' ', '=', ' '] ++ value ++ ['\n']

def writeRule (r : Rule) : List Char :=
  "\n[[rules]]\n".toList ++ entry "find" (writeString r.pattern) ++
    entry "replace" (writeString r.replacement)

def writeSettings (s : Settings) : List Char :=
  (match s.preset with
    | some preset => entry "preset" (writeString preset)
    | none => []) ++
  (if s.rules.isEmpty then entry "rules" ['[', ']'] else []) ++
  entry "extensions" (writeStrings s.extensions) ++
  entry "exclude" (writeStrings s.exclude) ++
  entry "dry_run" (writeFlag s.dryRun) ++
  entry "parallel" (writeFlag s.parallel) ++
  s.rules.flatMap writeRule ++
  "\n[logging]\n".toList ++
  entry "level" (writeString s.logging.level) ++
  entry "json_format" (writeFlag s.logging.jsonFormat)

end Codemod.Toml

namespace Codemod.Settings

def toml (s : Settings) : String := String.ofList (Toml.writeSettings s)

end Codemod.Settings
