import Codemod.Json.Printer
import Codemod.Log.Level

/-! Log records, and the two forms in which they are written. -/
namespace Codemod.Log

/-- The part of the program that a record comes from, by the name that filters use. -/
inductive Origin where
  | command
  | settings
  | logging
  | run
  | editing
deriving DecidableEq, Repr

def Origin.name : Origin → String
  | .command => "recode"
  | .settings => "recode::config::types"
  | .logging => "recode::logging"
  | .run => "recode_engine::runner"
  | .editing => "recode_engine::rewriter"

inductive Form where
  | json
  | lines (coloured : Bool)
deriving DecidableEq, Repr

def Level.label (l : Level) : String := String.ofList (l.name.toList.leftpad 5 ' ')

def Level.colour : Level → String
  | .trace => "35"
  | .debug => "34"
  | .info => "32"
  | .warn => "33"
  | .error => "31"

/-- The text with names in place of the controls that a terminal acts upon. -/
def visible (text : String) : String :=
  String.join (text.toList.map fun c =>
    if c = '\x1b' ∨ c = '\x07' ∨ c = '\x08' ∨ c = '\x0c' ∨ c = '\x7f' then
      "\\x" ++ hex c
    else if 0x80 ≤ c.toNat ∧ c.toNat ≤ 0x9F then "\\u\x7b" ++ hex c ++ "\x7d"
    else String.singleton c)
where
  hex (c : Char) : String :=
    String.ofList [Text.lowerHexDigit (c.toNat / 16), Text.lowerHexDigit (c.toNat % 16)]

structure Record where
  level : Level
  origin : Origin
  message : String
  fields : List (String × Data)
deriving Repr

namespace Record

def content (r : Record) : Data := .table (("message", .text r.message) :: r.fields)

def fieldNames (r : Record) : List String := "message" :: r.fields.map (·.1)

def json (timestamp : String) (r : Record) : String :=
  Json.print .compact (.table [("timestamp", .text timestamp), ("level", .text r.level.name),
    ("fields", r.content), ("target", .text r.origin.name)])

def quotedFields : List String := ["find", "replace"]

def line (coloured : Bool) (timestamp : String) (r : Record) : String :=
  let style (code text : String) : String :=
    if coloured then s!"\x1b[{code}m{text}\x1b[0m" else text
  let shown (name : String) : Data → String
    | .text value =>
      if quotedFields.contains name then String.ofList (Json.quote value) else value
    | value => Json.print .compact value
  let field (entry : String × Data) : String :=
    " " ++ style "3" entry.1 ++ style "2" "=" ++ shown entry.1 entry.2
  style "2" timestamp ++ " " ++ style r.level.colour r.level.label ++ " " ++ visible r.message ++
    String.join (r.fields.map field)

def written (form : Form) (timestamp : String) (r : Record) : String :=
  match form with
  | .json => r.json timestamp ++ "\n"
  | .lines coloured => r.line coloured timestamp ++ "\n"

end Record

end Codemod.Log
