import OpenApiClient.Disk.Basic
import OpenApiClient.Document
import OpenApiClient.Text.Utf8

/-!
# Sources of documents

A document comes from standard input, from the web or from a file.  A file is read as UTF-8
with every end of line made a line feed.
-/

namespace OpenApiClient.Document

/-- Where a document comes from. -/
inductive Source where
  | standardInput
  | url (address : String)
  | file (path : String)
  deriving DecidableEq, Repr

/-- What comes back from the web: a page with its status, or word that there is no way. -/
inductive Reply where
  | page (status : Nat) (body : String)
  | unreachable (reason : String)
  deriving DecidableEq, Repr

namespace Source

/-- The source that a text names: a dash is standard input. -/
def ofString (s : String) : Source :=
  if s = "-" then .standardInput
  else if Text.startsWith s.toList "http://".toList || Text.startsWith s.toList "https://".toList
  then .url s
  else .file s

/-- The name of a source. -/
def name : Source → String
  | .standardInput => "-"
  | .url address => address
  | .file path => path

/-- A source is named as it was. -/
@[simp] theorem name_ofString (s : String) : (ofString s).name = s := by
  unfold ofString
  split
  · simp_all [name]
  · split <;> rfl

/-- The text of a source, given a disk, what stands on standard input and what the web
answers. -/
def read (d : Disk) (input : String) (fetch : String → Reply) : Source → Except Fault String
  | .standardInput => .ok input
  | .url address =>
    match fetch address with
    | .unreachable reason => .error (.of (.unreachable address reason))
    | .page status body =>
      if 200 ≤ status && status < 300 then .ok body
      else .error (.of (.httpStatus status address))
  | .file path => do
    match ← d.bytes? (Path.ofString path) with
    | none => .error (.of (.fileNotFound path))
    | some bytes =>
      match Text.decodeUtf8 bytes with
      | .error fault => .error (.of (.unreadableFile path fault.message))
      | .ok text => .ok (String.ofList (Text.unixLines text.toList))

/-- The root of the document of a source, with what is noted on the way. -/
def load (d : Disk) (input : String) (fetch : String → Reply) (s : Source) :
    List Record × Except Fault Value :=
  match s.read d input fetch with
  | .error fault => ([], .error fault)
  | .ok text =>
    if Text.isBlankText text then ([], .error (.of (.emptySource s.name)))
    else
      let (log, root) := parse text
      (⟨.debug, "parser.loader",
        "Loaded " ++ toString text.length ++ " characters from " ++ s.name⟩ :: log, root)

end Source

end OpenApiClient.Document
