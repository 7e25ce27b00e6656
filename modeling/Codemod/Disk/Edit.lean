import Codemod.Disk.Access

/-! Making, removing and moving entries. These never follow a link at the end of a path, since they
are about the entry itself. -/
namespace Codemod.Disk

def parent? (d : Disk) (p : Path) : Option (Location × Bytes) :=
  let names := (parts p).filter (· ≠ [])
  match names.getLast? with
  | none => none
  | some name =>
    match follow .use d.root linkLimit (if p.isAbsolute then [] else d.current) names.dropLast with
    | .ok (.entry folder) => some (folder, name)
    | _ => none

def makeFolders (d : Disk) (p : Path) : Disk :=
  let names := (parts p).filter (· ≠ [])
  (List.range (names.length + 1)).foldl (fun d n =>
    match follow .use d.root linkLimit (if p.isAbsolute then [] else d.current) (names.take n) with
    | .ok (.vacant folder name []) => d.change folder (·.put name (.folder .empty))
    | _ => d) d

def makeParents (d : Disk) (p : Path) : Disk :=
  let names := (parts p).filter (· ≠ [])
  d.makeFolders ((if p.isAbsolute then [Path.slash] else []) ++
    [Path.slash].intercalate names.dropLast)

def makeLink (d : Disk) (p target : Path) : Disk :=
  match d.parent? p with
  | some (folder, name) =>
    if (d.root.entryAt (folder ++ [name])).isSome then d
    else d.change folder (·.put name (.link target))
  | none => d

def remove (d : Disk) (p : Path) : Disk :=
  match d.parent? p with
  | some (folder, name) => d.change folder (·.erase name)
  | none => d

def rename (d : Disk) (source target : Path) : Disk :=
  match d.parent? source, d.parent? target with
  | some (folder, name), some (newFolder, newName) =>
    match d.root.entryAt (folder ++ [name]) with
    | some entry =>
      (d.change folder (·.erase name)).change newFolder (·.put newName entry)
    | none => d
  | _, _ => d

end Codemod.Disk
