import Codemod.Text.Split
import Codemod.Text.Utf8

/-! Paths as byte strings, and the components they consist of. Doubled and trailing slashes and
inner `.` parts separate nothing, so paths that differ only in them have the same components. -/
namespace Codemod

abbrev Path := Bytes

namespace Path

def slash : UInt8 := 47
def dot : UInt8 := 46

def ofText (text : String) : Path := Utf8.encode text

def display (p : Path) : String := Utf8.lossy p

def isAbsolute (p : Path) : Bool := p.head? == some slash

/-- The root `/`, a `.` that begins a relative path, `..`, or a name. -/
inductive Component where
  | root
  | here
  | up
  | name (bytes : Bytes)
deriving DecidableEq, Repr

namespace Component

def bytes : Component → Bytes
  | .root => [slash]
  | .here => [dot]
  | .up => [dot, dot]
  | .name n => n

def display (c : Component) : String := Utf8.lossy c.bytes

end Component

def inner (part : Bytes) : Option Component :=
  if part = [] ∨ part = [dot] then none
  else if part = [dot, dot] then some .up
  else some (.name part)

/-- A path begins with the root, or with a `.` that counts only there, or with any other part. -/
def leading (part : Bytes) : Option Component :=
  if part = [dot] then some .here else inner part

def components (p : Path) : List Component :=
  match splitOn slash p with
  | [] => []
  | first :: rest =>
    (if p.isAbsolute then [.root] else (leading first).toList) ++ rest.filterMap inner

/-- Appends a path to a folder's path. An absolute path stands for itself. -/
def join (p q : Path) : Path :=
  if q.isAbsolute then q
  else if p = [] ∨ p.getLast? = some slash then p ++ q
  else p ++ slash :: q

/-- The components of `p` below `root`, or all of them if `p` is not below it. -/
def relativeTo (root p : Path) : List Component :=
  if root.components.isPrefixOf p.components then p.components.drop root.components.length
  else p.components

/-- What follows the last dot of a file name; a dot at the front begins no extension. -/
def extensionOfName (name : Bytes) : Option Bytes :=
  match name.reverse.dropWhile (· != dot) with
  | [] | [_] => none
  | _ :: _ :: _ => some (name.reverse.takeWhile (· != dot)).reverse

def extension? (p : Path) : Option Bytes :=
  match p.components.getLast? with
  | some (.name n) => extensionOfName n
  | _ => none

end Path

end Codemod
