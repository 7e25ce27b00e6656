import Codemod.Disk.Folder
import Codemod.Fault

/-! What a path leads to. Links are followed, at most forty of them, and a path that ends in a
slash leads to a folder only: a file behind it is refused, and for writing nothing is looked up
there at all. -/
namespace Codemod

/-- All folders from the top, and the folder in which relative paths begin. -/
structure Disk where
  root : Folder
  current : Location
deriving DecidableEq, Repr

namespace Disk

/-- A path must be shorter than this. -/
def pathLimit : Nat := 4096

def linkLimit : Nat := 40

def absolute (d : Disk) (p : Path) : Path :=
  if p.isAbsolute then p
  else d.current.flatMap (Path.slash :: ·) ++ Path.slash :: p

/-- The parts of a path between slashes. An empty part stands at the end for a final slash. -/
def parts (p : Path) : List Bytes :=
  (splitOn Path.slash p).filter (· ≠ []) ++ if p.getLast? = some Path.slash then [[]] else []

inductive Purpose where
  | use
  /-- To write a file, which is made if it is not there. -/
  | write
deriving DecidableEq, Repr

/-- How far the parts of a path lead before a link must be followed. -/
inductive Stretch where
  | arrived (location : Location)
  | vacant (folder : Location) (name : Bytes) (more : List Bytes)
  | refused (cause : Refusal)
  | redirect (folder : Location) (target : Path) (more : List Bytes)
deriving DecidableEq, Repr

/-- Goes from a folder along the parts of a path. A last name with a slash behind it names a folder,
so it is not written whatever stands there. -/
def advance (purpose : Purpose) (root : Folder) (folder : Location) : List Bytes → Stretch
  | [] => .arrived folder
  | part :: more =>
    if part = [] ∨ part = [Path.dot] then advance purpose root folder more
    else if part = [Path.dot, Path.dot] then advance purpose root folder.dropLast more
    else if purpose = .write ∧ more = [[]] then .refused .folder
    else if Folder.nameLimit < part.length then .refused .nameTooLong
    else match root.entryAt (folder ++ [part]) with
      | none => .vacant folder part more
      | some (.folder _) => advance purpose root (folder ++ [part]) more
      | some (.file ..) =>
        if more = [] then .arrived (folder ++ [part]) else .refused .notFolder
      | some (.link target) => .redirect folder target more

inductive Landing where
  | entry (location : Location)
  | vacant (folder : Location) (name : Bytes) (more : List Bytes)
deriving DecidableEq, Repr

def follow (purpose : Purpose) (root : Folder) (budget : Nat) (folder : Location)
    (more : List Bytes) : Except Refusal Landing :=
  match advance purpose root folder more with
  | .arrived location => .ok (.entry location)
  | .vacant folder name more => .ok (.vacant folder name more)
  | .refused cause => .error cause
  | .redirect folder target more =>
    match budget with
    | 0 => .error .linkLoop
    | budget + 1 =>
      follow purpose root budget (if Path.isAbsolute target then [] else folder)
        (parts target ++ more)

def land (purpose : Purpose) (d : Disk) (p : Path) : Except Refusal Landing :=
  if 0 ∈ p then .error .nulByte
  else if p = [] then .error .absent
  else if pathLimit ≤ p.length then .error .nameTooLong
  else follow purpose d.root linkLimit (if p.isAbsolute then [] else d.current) (parts p)

def locate (d : Disk) (p : Path) : Except Refusal Location :=
  match d.land .use p with
  | .ok (.entry location) => .ok location
  | .ok (.vacant ..) => .error .absent
  | .error cause => .error cause

def entry (d : Disk) (p : Path) : Except Refusal Entry := do
  match d.root.entryAt (← d.locate p) with
  | some entry => return entry
  | none => throw .absent

def folder? (d : Disk) (p : Path) : Option Folder :=
  match d.entry p with
  | .ok (.folder entries) => some entries
  | _ => none

def isFolder (d : Disk) (p : Path) : Bool := (d.folder? p).isSome

def isFile (d : Disk) (p : Path) : Bool :=
  match d.entry p with
  | .ok (.file ..) => true
  | _ => false

end Disk

end Codemod
