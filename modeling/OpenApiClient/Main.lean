import OpenApiClient.CommandLine.Run

/-!
# The program

The outer layer: it gathers what a run looks at (the environment, standard input, the source,
the project file and the output directory), lets the run be worked out, and then does to the
real disk what the run has done to its own.  It reaches no network.
-/

namespace OpenApiClient.Program

open CommandLine

/-- The variables of the environment that a run looks at. -/
def variableNames : List String :=
  Settings.environmentNames.map (·.1) ++ ["NO_COLOR", "TERM", "COLUMNS", "XDG_DATA_HOME"]

/-- How deep the output directory is looked into. -/
def depthLimit : Nat := 8

/-- The path of a place from the root. -/
def pathTo (place : Place) : String := "/" ++ Text.join "/" place

/-- What really stands at a place, down to some depth. -/
def survey : Nat → Place → IO (Option FileTree)
  | depth, place => do
    let path := (← IO.currentDir) / pathTo place
    if ← path.isDir then
      match depth with
      | 0 => return some .empty
      | depth + 1 =>
        let entries ← (← path.readDir).toList.filterMapM fun entry => do
          return (← survey depth (place ++ [entry.fileName])).map (entry.fileName, ·)
        return some (.directory entries)
    else if ← path.pathExists then return some (.file (← IO.FS.readBinFile path).toList)
    else return none

/-- The disk with what really stands on the way to the end of a path, and there down to some
depth. -/
def look (depth : Nat) (p : Path) (d : Disk) : IO Disk := do
  let names := (p.absolute d.working).names
  let mut d := d
  for n in List.range names.length do
    let place := names.take (n + 1)
    if place = names || (d.tree.get? place).isNone then
      if let some t ← survey (if place = names then depth else 0) place then
        d := d.withTree (d.tree.put place t)
  return d

/-- All lines of standard input. -/
partial def readInput (input : IO.FS.Stream) : IO String := do
  let line ← input.getLine
  if line.isEmpty then return ""
  return line ++ (← readInput input)

/-- Eight letters taken by chance. -/
def chance : IO String := do
  let mut letters := []
  for _ in List.range 8 do
    letters := Char.ofNat (97 + (← IO.rand 0 25)) :: letters
  return String.ofList letters

/-- Does to the real disk what a run has done to its own. -/
def apply (before after : Disk) (nonce : String) : IO Unit := do
  for (place, bytes) in after.tree.listing do
    match bytes, before.tree.get? place with
    | none, none => IO.FS.createDirAll (pathTo place)
    | none, some _ => pure ()
    | some new, old =>
      let same := match old with
        | some (.file bytes) => bytes == new
        | _ => false
      unless same do
        let path := pathTo place
        let draft := path ++ "." ++ nonce ++ ".tmp"
        IO.FS.writeBinFile draft ⟨new.toArray⟩
        IO.FS.rename draft path

end OpenApiClient.Program

open OpenApiClient CommandLine Program in
/-- Runs the program. -/
def main (words : List String) : IO UInt32 := do
  let here ← IO.currentDir
  let input ← IO.getStdin
  let out ← IO.getStdout
  let err ← IO.getStderr
  let environment ← variableNames.filterMapM fun name => do
    return (← IO.getEnv name).map (name, ·)
  let working := (Path.ofString here.toString).names
  let machine : Machine :=
    { disk := { tree := FileTree.empty.put working .empty, working }, environment
      terminal := ← out.isTty, home := (← IO.getEnv "HOME").getD "/"
      nonce := ← chance, time := toString (← IO.monoMsNow) }
  let machine ← match Request.ofWords? words with
    | some (.run _ task) => do
      let disk ← look 0 machine.projectFile machine.disk
      let disk ←
        if task.source = "-" then pure disk else look 0 (Path.ofString task.source) disk
      let disk ← match task, { machine with disk }.settings task.flags with
        | .generate .., .ok s => look depthLimit (Path.ofString s.output) disk
        | _, _ => pure disk
      let text ← if task.source = "-" then readInput input else pure ""
      pure { machine with disk, input := text }
    | _ => pure machine
  let outcome := run machine words
  out.putStr outcome.streams.out
  err.putStr outcome.streams.err
  apply machine.disk outcome.disk machine.nonce
  return outcome.code.toUInt32
