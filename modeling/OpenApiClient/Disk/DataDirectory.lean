import OpenApiClient.Disk.Filing

/-!
# The data directory

Where the program keeps what it writes for itself.  On systems that follow the base directory
convention it is below the directory that the environment names, or below the customary one;
elsewhere it is a hidden directory of the user.
-/

namespace OpenApiClient.DataDirectory

/-- The program's name. -/
def programName : String := "phpclientgen"

/-- Whether a system follows the base directory convention. -/
def followsConvention (system : String) : Bool :=
  system = "Linux" || "BSD".toList.isSuffixOf system.toList

/-- The path of the data directory. -/
def path (system home : String) (environment : List (String × String)) : Path :=
  if followsConvention system then
    let base := match (environment.lookup "XDG_DATA_HOME").filter (!·.isEmpty) with
      | some named => Path.ofString named
      | none => Path.ofString home / ".local" / "share"
    base / programName
  else Path.ofString home / ("." ++ programName)

/-- Makes the data directory unless it is there, and gives its path. -/
def make (system home : String) (environment : List (String × String)) : Filing Path := do
  let p := path system home environment
  Filing.makeDirectories p
  return p

end OpenApiClient.DataDirectory
