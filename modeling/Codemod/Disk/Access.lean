import Codemod.Disk.Resolve

/-! Reading and writing files by path. Writing opens the file once, replaces its whole content and
makes the file if there is none. -/
namespace Codemod.Disk

def readBytes (d : Disk) (p : Path) : Except Refusal Bytes := do
  match ← d.entry p with
  | .file content _ => return content
  | .folder _ => throw .folder
  | .link _ => throw .absent

def readText (d : Disk) (p : Path) : Except Refusal String := do
  match Utf8.decode? (← d.readBytes p) with
  | some text => return text
  | none => throw .notText

def change (d : Disk) (folder : Location) (f : Folder → Folder) : Disk :=
  { d with root := Folder.changeAt f folder d.root }

def writeAt (d : Disk) (location : Location) (content : Bytes) : Except Refusal Disk :=
  match d.root.entryAt location, location.getLast? with
  | some (.file _ revision), some name =>
    .ok (d.change location.dropLast (·.put name (.file content (revision + 1))))
  | some (.folder _), _ => .error .folder
  | _, _ => .error .absent

/-- Writes a file. A path that leads to a folder, or with a final slash to anything, is refused. -/
def write (d : Disk) (p : Path) (content : Bytes) : Except Refusal Disk := do
  match ← d.land .write p with
  | .entry location => d.writeAt location content
  | .vacant folder name [] => return d.change folder (·.put name (.file content 1))
  | .vacant .. => throw .absent

end Codemod.Disk
