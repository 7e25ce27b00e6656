import Codemod.Disk.Access

/-! The disk together with drafts: texts that a dry run would have written. A file with a draft
reads as its draft. -/
namespace Codemod

/-- Texts by the components of their paths, so that paths which differ only in spelling share
a draft. -/
abbrev Drafts := List (List Path.Component × String)

namespace Drafts

def get? (drafts : Drafts) (p : Path) : Option String := drafts.lookup p.components

def put (drafts : Drafts) (p : Path) (text : String) : Drafts :=
  (p.components, text) :: drafts.filter (·.1 ≠ p.components)

theorem get?_put_same (drafts : Drafts) (p : Path) (text : String) :
    (drafts.put p text).get? p = some text := by
  simp [put, get?]

theorem get?_put_other (drafts : Drafts) {p q : Path} (text : String)
    (apart : p.components ≠ q.components) : (drafts.put p text).get? q = drafts.get? q := by
  have apart : (q.components == p.components) = false := by simpa using Ne.symm apart
  simp only [put, get?, List.lookup_cons, apart]
  induction drafts with
  | nil => rfl
  | cons draft drafts ih =>
    obtain ⟨path, _⟩ := draft
    by_cases same : path = p.components
    · rw [List.filter_cons_of_neg (by simpa using same), ih, List.lookup_cons, same, apart]
    · rw [List.filter_cons_of_pos (by simpa using same), List.lookup_cons, List.lookup_cons, ih]

end Drafts

structure Workspace where
  disk : Disk
  drafts : Drafts
deriving DecidableEq, Repr

namespace Workspace

def text (w : Workspace) (p : Path) : Except Refusal String :=
  match w.drafts.get? p with
  | some text => .ok text
  | none => w.disk.readText p

def discard (w : Workspace) : Workspace := { w with drafts := [] }

end Workspace

end Codemod
