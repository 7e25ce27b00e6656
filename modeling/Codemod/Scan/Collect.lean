import Codemod.Disk.Resolve
import Codemod.Scan.Exclude

/-! Collecting the files that a rulebook is about. The walk goes through real folders only, entry
by entry in the order of their names, and does not look into a folder that is left out. A root that
is a link to a folder is entered. -/
namespace Codemod.Scan

structure Search where
  root : Path
  extensions : List String
  exclude : List String
deriving DecidableEq, Repr

namespace Search

def excludes (s : Search) (path : Path) (isFolder : Bool) : Bool :=
  isExcluded s.root path isFolder s.exclude

/-- A file is collected if its extension is right and it is not left out itself. -/
def wants (s : Search) (path : Path) : Bool :=
  hasExtension path s.extensions && !s.excludes path false

/-- The wanted files below a folder with this path. A folder whose path is too long cannot be
opened, which ends the walk. -/
def below (s : Search) (path : Path) : Folder → Except Fault (List Path)
  | .empty => .ok []
  | .file name _ _ rest => do
    let more ← below s path rest
    let file := path.join name
    return if s.wants file then file :: more else more
  | .link _ _ rest => below s path rest
  | .sub name entries rest =>
    let folder := path.join name
    if s.excludes folder true then below s path rest
    else if Disk.pathLimit ≤ folder.length then
      .error (.access folder (.listing folder .nameTooLong))
    else do
      let inner ← below s folder entries
      let more ← below s path rest
      return inner ++ more

end Search

def ensureRoot (d : Disk) (root : Path) : Except Fault Unit :=
  if d.isFolder root then .ok () else .error (.rootMissing root)

def collect (d : Disk) (s : Search) : Except Fault (List Path) :=
  match d.folder? s.root with
  | some folder => s.below s.root folder
  | none => .error (.rootMissing s.root)

end Codemod.Scan
