/-! Distances in text, counted in bytes of UTF-8. A text is cut at such a distance only where no
character lies across the place, and where one does, the text is torn. -/
namespace Codemod.Text

def byteLength : List Char → Nat
  | [] => 0
  | c :: rest => c.utf8Size + byteLength rest

theorem byteLength_append (cs ds : List Char) :
    byteLength (cs ++ ds) = byteLength cs + byteLength ds := by
  induction cs with
  | nil => simp [byteLength]
  | cons c cs ih => simp [byteLength, ih, Nat.add_assoc]

def cutAt? : Nat → List Char → Option (List Char × List Char)
  | 0, cs => some ([], cs)
  | _ + 1, [] => none
  | n + 1, c :: rest =>
    if c.utf8Size ≤ n + 1 then
      (cutAt? (n + 1 - c.utf8Size) rest).map fun (before, after) => (c :: before, after)
    else none

def between? (start stop : Nat) (cs : List Char) : Option (List Char) := do
  let (_, rest) ← cutAt? start cs
  let (part, _) ← cutAt? (stop - start) rest
  return part

inductive Misreading where
  | malformed
  /-- A part would begin or end inside of a character. -/
  | torn
deriving DecidableEq, Repr

def part (text : List Char) (start stop : Nat) : Except Misreading (List Char) :=
  match between? start stop text with
  | some part => .ok part
  | none => .error .torn

end Codemod.Text
