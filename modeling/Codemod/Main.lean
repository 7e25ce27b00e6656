import Codemod.Command.Execute
import Codemod.Disk.Edit
import Codemod.Disk.Listing
import Codemod.Report.Timestamp

/-! The command line program. It takes a picture of the part of the disk that the arguments are
about, lets `Command.run` work on the picture, and then writes the files that changed in it. -/
namespace Codemod.Main

/-- The entries of a folder, without the contents of the files. Entries are put in from the last
name to the first, so that each takes its place in front. -/
partial def readFolder (directory : String) : IO Folder := do
  let path := System.mkFilePath [directory]
  let entries := (← path.readDir).qsort fun a b => b.fileName < a.fileName
  let mut folder := Folder.empty
  for entry in entries do
    let name := Path.ofText entry.fileName
    match (← entry.path.symlinkMetadata).type with
    | .dir =>
      let below ← try readFolder entry.path.toString catch _ => pure Folder.empty
      folder := folder.put name (.folder below)
    | .file => folder := folder.put name (.file [] 0)
    | .symlink =>
      let target ←
        try pure (← IO.FS.realPath entry.path).toString catch _ => pure entry.fileName
      folder := folder.put name (.link (Path.ofText target))
    | .other => pure ()
  return folder

def readFile (path : String) : IO Bytes := do return (← IO.FS.readBinFile path).toList

/-- Adds a file or folder to the picture, if it is there. A link is added after its target. -/
def addEntry (d : Disk) (path : String) : IO Disk := do
  try
    let file := System.mkFilePath [path]
    match (← file.symlinkMetadata).type with
    | .dir => return d.makeFolders (Path.ofText path)
    | .file =>
      let made := (d.makeParents (Path.ofText path)).write (Path.ofText path) (← readFile path)
      return made.toOption.getD d
    | .symlink =>
      let target := (← IO.FS.realPath file).toString
      let d ← if ← (System.mkFilePath [target]).isDir then
          pure (d.makeFolders (Path.ofText target))
        else do
          let made := (d.makeParents (Path.ofText target)).write (Path.ofText target)
            (← readFile target)
          pure (made.toOption.getD d)
      return d.makeLink (Path.ofText path) (Path.ofText target)
    | .other => return d
  catch _ => return d

def addPath (d : Disk) (path : String) : IO Disk := do
  let parts := path.splitOn "/"
  let mut d := d
  for n in List.range parts.length do
    let leading := "/".intercalate (parts.take (n + 1))
    unless leading.isEmpty do
      d ← addEntry d leading
  return d

def addTree (d : Disk) (root : String) : IO Disk := do
  try
    let real := (← IO.FS.realPath root).toString
    let folder ← readFolder real
    let location := (Disk.parts (Path.ofText real)).filter (· ≠ [])
    return (d.makeFolders (Path.ofText real)).change location fun _ => folder
  catch _ => return d

def addContents (d : Disk) (paths : List Path) : IO Disk := do
  let mut d := d
  for path in paths do
    try
      let content ← readFile path.display
      d := (d.write path content).toOption.getD d
    catch _ => pure ()
  return d

def readEnvironment : IO (List (String × String)) := do
  let bytes ← readFile "/proc/self/environ"
  let named := (splitOn 0 bytes).filterMap fun entry =>
    match entry.dropWhile (· != 61) with
    | [] => none
    | _ :: value => some (Utf8.lossy (entry.takeWhile (· != 61)), Utf8.lossy value)
  return named.mergeSort fun a b => decide (a.1 ≤ b.1)

def startTime : IO String := do
  let time := (← (← IO.FS.realPath "/proc/self/environ").metadata).modified
  return Timestamp.text time.sec.toNat time.nsec.toNat

def picture (a : Command.Arguments) (environment : List (String × String)) :
    IO (Disk × List Path) := do
  let here := (← IO.FS.realPath ".").toString
  let current := (Disk.parts (Path.ofText here)).filter (· ≠ [])
  let d := (⟨.empty, current⟩ : Disk).makeFolders (Path.ofText here)
  let d ← addTree d a.root.display
  let d ← addPath d a.root.display
  let d ← match a.source.file, a.source.file? d with
    | some path, _ => addPath d path.display
    | none, some path => addContents d [path]
    | none, none => pure d
  let files := a.wantedFiles d environment
  return (← addContents d files, files)

def run (arguments : List String) : IO UInt32 := do
  let environment ← readEnvironment
  let timestamp ← startTime
  let (disk, files) ← match Command.Arguments.parse arguments with
    | .ok a => picture a environment
    | .error _ => pure (⟨.empty, []⟩, [])
  let c := Command.run ⟨arguments, environment, disk, timestamp, .inOrder⟩
  for (path, content) in Disk.changedFiles disk c.disk files do
    IO.FS.writeBinFile path.display ⟨content.toArray⟩
  IO.print c.out
  match c.usage with
  | some usage =>
    if usage.exitCode = .success then IO.print usage.message else IO.eprint usage.message
  | none => IO.eprint (c.errors timestamp)
  return UInt32.ofNat c.code.toNat

end Codemod.Main

def main (arguments : List String) : IO UInt32 := Codemod.Main.run arguments
