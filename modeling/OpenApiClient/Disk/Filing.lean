import OpenApiClient.Disk.Basic

/-!
# Making directories and writing files

Steps that change a disk.  A step that fails keeps what it has done: directories that were
made on the way stay.  A file is written under a name of its own beside its place and then
takes its place in one move, so that no reader ever sees half of it; if the move fails, the
file beside it is taken away again.
-/

namespace OpenApiClient

/-- A step that changes a disk, may fail, and keeps what it has done. -/
abbrev Filing := ExceptT Fault (StateM Disk)

namespace Filing

/-- Notes a record. -/
def note (level : Level) (origin message : String) : Filing Unit :=
  modify fun d => { d with log := d.log.push ⟨level, origin, message⟩ }

/-- Whether a directory stands at the end of a path. -/
def isDirectory (p : Path) : Filing Bool := do
  MonadExcept.ofExcept ((← get).isDirectory p)

/-- Goes on with a changed disk, or fails unless a directory stands at the end of the path. -/
def settle (p : Path) : Except Obstacle Disk → Filing Unit
  | .ok d => set d
  | .error .missing => throw (Obstacle.missing.fault p)
  | .error obstacle => do
    unless ← isDirectory p do throw (obstacle.fault p)

/-- Makes a directory and those above it, unless it is there. -/
def makeDirectories (p : Path) : Filing Unit := do
  match (← get).makeDirectory p with
  | .error .missing =>
    if _h : p.names = [] then throw (Obstacle.missing.fault p)
    else
      makeDirectories p.parent
      settle p ((← get).makeDirectory p)
  | result => settle p result
termination_by p.names.length
decreasing_by exact Path.parent_names_length _h

/-- The name under which a file is written before it takes its place. -/
def draftName (nonce : String) (p : Path) : String := "." ++ p.name ++ "." ++ nonce ++ ".tmp"

/-- Writes a file at a place where nothing stands. -/
def create (p : Path) (t : FileTree) : Filing Unit := do
  let d ← get
  match d.locate p with
  | .error obstacle => throw (obstacle.fault p)
  | .ok place =>
    if (d.tree.get? place).isSome then throw (Obstacle.exists.fault p)
    else set (d.withTree (d.tree.put place t))

/-- Moves a file to the end of a path, in place of a file that stands there. -/
def move (source target : Path) : Filing Unit := do
  let d ← get
  match d.locate source, d.locate target with
  | .error obstacle, _ => throw (obstacle.fault source)
  | _, .error obstacle => throw (obstacle.fault target)
  | .ok start, .ok place =>
    if target.name = "" || target.name = ".." then
      throw (.blocked (.busy source.text target.text))
    else match d.tree.get? start, d.tree.get? place with
      | none, _ => throw (Obstacle.missing.fault source)
      | _, some (.directory _) => throw (.blocked (.isADirectory source.text target.text))
      | some t, _ => set (d.withTree ((d.tree.erase start).put place t))

/-- Takes away what stands at the end of a path, if anything does. -/
def discard (p : Path) : Filing Unit :=
  modify fun d => match d.locate p with
    | .ok place => d.withTree (d.tree.erase place)
    | .error _ => d

/-- Puts a text into the file at the end of a path, making the directories above it. -/
def write (nonce : String) (p : Path) (text : String) : Filing Unit := do
  makeDirectories p.parent
  let draft := (p.parent.absolute (← get).working).join ⟨.here, [draftName nonce p]⟩
  create draft (.ofText text)
  try move draft p
  catch fault =>
    discard draft
    throw fault

end Filing

end OpenApiClient
