import OpenApiClient.Disk.Filing
import OpenApiClient.Library.Namespace
import OpenApiClient.Php.Files

/-!
# Output directories

Where the files of a library go.  All files are made before the first directory is, so a
library that cannot be made leaves the disk as it was.
-/

namespace OpenApiClient.Output

/-- The directories of a library, the outermost first. -/
def directories (root : Path) (withTests : Bool) : List Path :=
  [root, root / "Managers", root / "Resources", root / "Exceptions"] ++
  (if withTests then [root / "Tests" / "Managers", root / "Tests" / "Resources"] else [])

/-- Turns what the file system did not do into a failure of the output. -/
def explain (cause : FileProblem → Cause) : Fault → Fault
  | .blocked problem => .of (cause problem)
  | fault => fault

/-- Makes a directory unless it is there, and says whether it was made. -/
def ensureDirectory (p : Path) : Filing Bool := do
  if ← Filing.isDirectory p then return false
  try Filing.makeDirectories p
  catch fault => throw (explain (.cannotCreate p.text) fault)
  Filing.note .debug "render.writer" ("Created directory " ++ p.text)
  return true

/-- Writes a file of a library and gives its path. -/
def writeFile (nonce : String) (root : Path) (file : String × String) : Filing Path := do
  let p := root / file.1
  discard (ensureDirectory p.parent)
  try Filing.write nonce p file.2
  catch fault => throw (explain (.cannotWrite p.text) fault)
  return p

/-- Writes files below a directory, one after the other, and gives their paths.  Where a
write fails, the files before it stay. -/
def writeFiles (nonce : String) (root : Path) (files : List (String × String)) :
    Filing (List Path) :=
  files.mapM (writeFile nonce root)

/-- Writes the files of a library below a directory and gives their paths. -/
def write (nonce : String) (ts : Php.Templates) (l : Library) (root : Path) (withTests : Bool) :
    Filing (List Path) := do
  let (log, rendered) := Php.render ts l withTests
  for r in log do
    Filing.note r.level r.origin r.message
  let files ← MonadExcept.ofExcept rendered
  for p in directories root withTests do
    discard (ensureDirectory p)
  let written ← writeFiles nonce root files
  Filing.note .info "render.writer"
    ("Wrote " ++ toString written.length ++ " file(s) to " ++ root.text)
  return written

end OpenApiClient.Output
