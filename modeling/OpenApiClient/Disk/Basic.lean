import OpenApiClient.Fault
import OpenApiClient.FileTree.Basic
import OpenApiClient.Log
import OpenApiClient.Path

/-!
# Disks

A disk is a file tree with a working directory, at which the paths start that start nowhere
else.  A path is walked name by name; every name but the last must lead to a directory, and
two dots lead up from where the walk has come to.
-/

namespace OpenApiClient

/-- A file tree, the place of the working directory, and what was noted while the tree was
changed. -/
structure Disk where
  tree : FileTree := .empty
  working : Place := []
  log : Array Record := #[]

/-- Why a walk along a path does not come to its end, or a directory cannot be made there. -/
inductive Obstacle where
  | missing
  | exists
  | notADirectory
  | nameTooLong
  | notAPath
  deriving DecidableEq, Repr

/-- The fault that an obstacle on a path is. -/
def Obstacle.fault (p : Path) : Obstacle → Fault
  | .missing => .blocked (.missing p.text)
  | .exists => .blocked (.exists p.text)
  | .notADirectory => .blocked (.notADirectory p.text)
  | .nameTooLong => .blocked (.nameTooLong p.text)
  | .notAPath => .refused .notAPath

/-- The number of bytes that a name may have. -/
def Path.nameLimit : Nat := 255

/-- Whether a path has a character that no name has. -/
def Path.hasNul (p : Path) : Bool := p.names.any (·.toList.contains '\x00')

namespace FileTree

/-- The place that names lead to from another place, where a last name need not lead to
anything yet. -/
def walk (t : FileTree) : Place → List String → Except Obstacle Place
  | here, [] => .ok here
  | here, name :: rest =>
    match t.get? here with
    | none => .error .missing
    | some (.file _) => .error .notADirectory
    | some (.directory _) =>
      if Path.nameLimit < name.utf8ByteSize then .error .nameTooLong
      else if name = ".." then t.walk here.dropLast rest
      else t.walk (here ++ [name]) rest

end FileTree

namespace Disk

/-- The place that a path leads to. -/
def locate (d : Disk) (p : Path) : Except Obstacle Place :=
  if p.hasNul then .error .notAPath
  else d.tree.walk (if p.start = .here then d.working else []) p.names

/-- What stands at the end of a path. -/
def find (d : Disk) (p : Path) : Except Obstacle FileTree := do
  match d.tree.get? (← d.locate p) with
  | none => .error .missing
  | some t => .ok t

/-- What stands at the end of a path, if anything does.  Only a name beyond the limit is a
fault. -/
def look (d : Disk) (p : Path) : Except Fault (Option FileTree) :=
  match d.find p with
  | .ok t => .ok (some t)
  | .error .nameTooLong => .error (Obstacle.nameTooLong.fault p)
  | .error _ => .ok none

/-- Whether a directory stands at the end of a path. -/
def isDirectory (d : Disk) (p : Path) : Except Fault Bool :=
  (d.look p).map fun t => t.any (·.isDirectory)

/-- The bytes of the file at the end of a path, if a file stands there. -/
def bytes? (d : Disk) (p : Path) : Except Fault (Option (List UInt8)) :=
  (d.look p).map fun
    | some (.file bytes) => some bytes
    | _ => none

/-- The disk with another tree. -/
def withTree (d : Disk) (t : FileTree) : Disk := { d with tree := t }

/-- Makes one directory, where its parent is and nothing else stands. -/
def makeDirectory (d : Disk) (p : Path) : Except Obstacle Disk := do
  let place ← d.locate p
  if (d.tree.get? place).isSome then .error .exists
  else .ok (d.withTree (d.tree.put place .empty))

/-- Looking changes nothing, so a directory that was found is still there. -/
theorem isDirectory_of_find {d : Disk} {p : Path} {t : FileTree} (h : d.find p = .ok t) :
    d.isDirectory p = .ok t.isDirectory := by
  simp [isDirectory, look, h, Except.map]

end Disk

end OpenApiClient
