import Codemod.Log.Record
import Codemod.Regex.Group
import Codemod.Text.Alphabet
import Codemod.Text.Blank
import Codemod.Text.Digits
import Codemod.Text.Measure
import Codemod.Text.Notation
import Codemod.Text.Split

/-! Directives of log filters. A directive is written as `origin[span{field=value}]=level`, in which
parts may be missing, and sets the least level of the records that it selects. Spans are stretches
of work that have a name and fields of their own. Nothing here is logged within a span, so that
directives about spans select no record. -/
namespace Codemod.Log

open Text (Misreading part)

/-- The least level that passes; `none` lets nothing pass. -/
abbrev Threshold := Option Level

def Threshold.admits (threshold : Threshold) (level : Level) : Bool :=
  match threshold with
  | some least => least.rank ≤ level.rank
  | none => false

/-- A threshold by its name in letters of either case, or by its number from 0, nothing, to 5,
everything. -/
def Threshold.ofText? (cs : List Char) : Option Threshold :=
  match Text.number? 10 (match cs with | '+' :: digits => digits | _ => cs) with
  | some 0 => some none
  | some 1 => some (some .error)
  | some 2 => some (some .warn)
  | some 3 => some (some .info)
  | some 4 => some (some .debug)
  | some 5 => some (some .trace)
  | some _ => none
  | none =>
    match Level.lowered (String.ofList cs) with
    | "off" => some none
    | "error" => some (some .error)
    | "warn" => some (some .warn)
    | "info" => some (some .info)
    | "debug" => some (some .debug)
    | "trace" => some (some .trace)
    | _ => none

structure Condition where
  field : String
  value : Option String
deriving DecidableEq, Repr

namespace Condition

def isNumber (cs : List Char) : Bool :=
  Text.isDecimal cs ||
    ["inf", "infinity", "nan"].contains (Level.lowered (String.ofList (Text.splitSign cs).2))

/-- Reads a name, and perhaps a value after `=`, which is a number or a regular expression. What
follows another `=` does not count. -/
def ofText? (cs : List Char) : Option Condition :=
  match splitOn '=' cs with
  | field :: value :: _ =>
    if isNumber value || Regex.isRegex value then
      some ⟨String.ofList field, some (String.ofList value)⟩
    else none
  | _ => some ⟨String.ofList cs, none⟩

end Condition

structure Directive where
  origins : Option String
  span : Option String
  condition : Option Condition
  threshold : Threshold
deriving DecidableEq, Repr

namespace Directive

def atLeast (level : Level) : Directive := ⟨none, none, none, some level⟩

inductive Stage where
  | nothing
  | origins
  | span (start : Nat)
  | condition (start : Nat)
  | conditioned
  | closed
  | level (start : Nat)
deriving DecidableEq, Repr

def beginsOrigin (c : Char) : Bool :=
  c == '-' || c == ':' || c == '_' || Text.isAlphanumeric c

def step (text : List Char) (place : Nat) (c : Char) (d : Directive) :
    Stage → Except Misreading (Directive × Stage)
  | .nothing =>
    if c = '[' then .ok (d, .span (place + 1))
    else if beginsOrigin c then .ok (d, .origins)
    else .error .malformed
  | .origins =>
    if c = '=' ∨ c = '[' then do
      let origins ← part text 0 place
      return ({ d with origins := some (String.ofList origins) },
        if c = '=' then .level (place + 1) else .span (place + 1))
    else .ok (d, .origins)
  | .span start =>
    if c = ']' then do
      let name ← part text start place
      return ({ d with span := some (String.ofList name) }, .closed)
    else if c = '{' then do
      let name ← part text start place
      return ({ d with span := if name.isEmpty then none else some (String.ofList name) },
        .condition (place + 1))
    else .ok (d, .span start)
  | .condition start =>
    if c = '}' then do
      let condition ← part text start place
      if condition.isEmpty then throw .malformed
      match Condition.ofText? condition with
      | some condition => return ({ d with condition := some condition }, .conditioned)
      | none => throw .malformed
    else .ok (d, .condition start)
  | .conditioned => if c = ']' then .ok (d, .closed) else .error .malformed
  | .closed => if c = '=' then .ok (d, .level (place + 1)) else .error .malformed
  | .level start => .ok (d, .level start)

/-- Ends a directive. Without a level everything passes, and a level alone is no origin. -/
def finish (text : List Char) (d : Directive) : Stage → Except Misreading Directive
  | .origins =>
    match Threshold.ofText? text with
    | some threshold => .ok { d with threshold }
    | none => .ok { d with origins := some (String.ofList text) }
  | .closed => .ok d
  | .level start => do
    let level ← part text start (Text.byteLength text)
    if level.isEmpty then return d
    match Threshold.ofText? level with
    | some threshold => return { d with threshold }
    | none => throw .malformed
  | _ => .error .malformed

def scan (text : List Char) (place : Nat) (d : Directive) (stage : Stage) :
    List Char → Except Misreading Directive
  | [] => finish text d stage
  | c :: rest => do
    let (d, stage) ← step text place c d stage
    scan text (place + c.utf8Size) d stage rest

/-- Reads a directive. Marks are looked for without the white space around the text, and places are
counted from there, but parts are taken from the text as it is. -/
def ofText (text : List Char) : Except Misreading Directive :=
  scan text 0 ⟨none, none, none, some .trace⟩ .nothing (Text.trim text)

/-- Whether a directive is about a record: its origin begins as the directive says, and it has the
field of the condition. Values of fields are compared for spans only. -/
def selects (d : Directive) (r : Record) : Bool :=
  d.span.isNone &&
  (match d.origins with
    | some origins => origins.toList.isPrefixOf r.origin.name.toList
    | none => true) &&
  match d.condition with
  | some ⟨field, none⟩ => r.fieldNames.contains field
  | some ⟨_, some _⟩ => false
  | none => true

/-- Whether `other` is at least as close as `d` to the records that both select. Closer is a longer
beginning of the origin's name, then a condition, and then the name of a field that comes later in
the alphabet. -/
def yieldsTo (d other : Directive) : Bool :=
  let reach (x : Directive) : Nat :=
    match x.origins with
    | some origins => origins.length + 1
    | none => 0
  if reach d ≠ reach other then reach d < reach other
  else match d.condition, other.condition with
    | none, _ => true
    | some _, none => false
    | some a, some b => decide (a.field ≤ b.field)

end Directive

end Codemod.Log
