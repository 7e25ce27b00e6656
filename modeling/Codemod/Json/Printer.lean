import Codemod.Data.Basic
import Codemod.Text.Digits

/-! JSON in two layouts: over several lines, with two spaces for each level and one item or entry
a line, and on one line without any space. Nothing stands between the brackets of an empty list or
table. -/
namespace Codemod.Json

/-- Only quotes, backslashes and the controls below U+0020 are escaped in a string. -/
def escape (c : Char) : List Char :=
  if c = '"' then ['\\', '"']
  else if c = '\\' then ['\\', '\\']
  else if c = '\n' then ['\\', 'n']
  else if c = '\r' then ['\\', 'r']
  else if c = '\t' then ['\\', 't']
  else if c = '\x08' then ['\\', 'b']
  else if c = '\x0c' then ['\\', 'f']
  else if c.toNat < 0x20 then
    ['\\', 'u', '0', '0', Text.lowerHexDigit (c.toNat / 16), Text.lowerHexDigit (c.toNat % 16)]
  else [c]

def quote (s : String) : List Char := '"' :: (s.toList.flatMap escape ++ ['"'])

structure Layout where
  /-- Before an item or entry of a list or table at this depth, and before its end. -/
  line : Nat → List Char
  gap : List Char

def Layout.pretty : Layout := ⟨fun depth => '\n' :: List.replicate (2 * depth) ' ', [' ']⟩

def Layout.compact : Layout := ⟨fun _ => [], []⟩

mutual

def render (l : Layout) (depth : Nat) : Data → List Char
  | .null => ['n', 'u', 'l', 'l']
  | .flag true => ['t', 'r', 'u', 'e']
  | .flag false => ['f', 'a', 'l', 's', 'e']
  | .integer value => (toString value).toList
  | .real literal => literal.toList
  | .text s => quote s
  | .list [] => ['[', ']']
  | .list (item :: items) =>
    '[' :: (l.line (depth + 1) ++ render l (depth + 1) item ++ renderItems l (depth + 1) items ++
      l.line depth ++ [']'])
  | .table [] => ['{', '}']
  | .table ((name, value) :: entries) =>
    '{' :: (l.line (depth + 1) ++ quote name ++ ':' :: l.gap ++ render l (depth + 1) value ++
      renderEntries l (depth + 1) entries ++ l.line depth ++ ['}'])

def renderItems (l : Layout) (depth : Nat) : List Data → List Char
  | [] => []
  | item :: items => ',' :: (l.line depth ++ render l depth item ++ renderItems l depth items)

def renderEntries (l : Layout) (depth : Nat) : List (String × Data) → List Char
  | [] => []
  | (name, value) :: entries =>
    ',' :: (l.line depth ++ quote name ++ ':' :: l.gap ++ render l depth value ++
      renderEntries l depth entries)

end

def print (l : Layout) (d : Data) : String := String.ofList (render l 0 d)

end Codemod.Json
