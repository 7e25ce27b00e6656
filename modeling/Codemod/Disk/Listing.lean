import Codemod.Disk.Resolve

/-! Listing everything below a folder, each entry with the path that leads to it. -/
namespace Codemod.Folder

/-- The entries of a folder and of all folders below it, in the order of the names; links are
listed and not followed. Paths begin with the path of the folder, without one for an empty path. -/
def listing (path : Path) : Folder → List (Path × Entry)
  | .empty => []
  | .file name content revision rest =>
    (Path.join path name, .file content revision) :: listing path rest
  | .link name target rest => (Path.join path name, .link target) :: listing path rest
  | .sub name entries rest =>
    (Path.join path name, .folder entries) :: (listing (Path.join path name) entries ++
      listing path rest)

end Codemod.Folder

namespace Codemod.Disk

def listing (d : Disk) : List (Path × Entry) :=
  match d.root.entryAt d.current with
  | some (.folder entries) => entries.listing []
  | _ => []

/-- The files below the current folder that were opened for writing or made since `before`. -/
def writtenSince (d before : Disk) : List Path :=
  let old := before.listing
  d.listing.filterMap fun (path, entry) =>
    match entry, old.lookup path with
    | .file _ revision, some (.file _ oldRevision) =>
      if revision = oldRevision then none else some path
    | .file .., _ => some path
    | _, _ => none

def changedFiles (before d : Disk) (paths : List Path) : List (Path × Bytes) :=
  paths.filterMap fun path =>
    match before.entry path, d.entry path with
    | .ok (.file _ oldRevision), .ok (.file content revision) =>
      if revision = oldRevision then none else some (path, content)
    | _, _ => none

end Codemod.Disk
