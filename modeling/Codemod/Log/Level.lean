import Codemod.Fault

/-! Levels of importance of log records. -/
namespace Codemod.Log

inductive Level where
  | trace
  | debug
  | info
  | warn
  | error
deriving DecidableEq, Repr

namespace Level

def name : Level → String
  | .trace => "TRACE"
  | .debug => "DEBUG"
  | .info => "INFO"
  | .warn => "WARN"
  | .error => "ERROR"

def rank : Level → Nat
  | .trace => 0
  | .debug => 1
  | .info => 2
  | .warn => 3
  | .error => 4

/-- The text with its ASCII letters in lower case. No other character has a lower case among the
letters of the level names. -/
def lowered (text : String) : String := String.ofList (text.toList.map Char.toLower)

def ofName? (text : String) : Option Level :=
  match lowered text with
  | "trace" => some .trace
  | "debug" => some .debug
  | "info" => some .info
  | "warn" | "warning" => some .warn
  | "error" => some .error
  | _ => none

def parse (text : String) : Except Fault Level :=
  match ofName? text with
  | some level => .ok level
  | none => .error (.configuration (.unknownLevel text))

end Level

end Codemod.Log
