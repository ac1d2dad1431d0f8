import OpenApiClient.CommandLine.Arguments
import OpenApiClient.Console
import OpenApiClient.Description.Extraction
import OpenApiClient.Disk.DataDirectory
import OpenApiClient.Document.Source
import OpenApiClient.Fault.Message
import OpenApiClient.Library.Assembly
import OpenApiClient.Output
import OpenApiClient.Settings.Resolution

/-!
# Runs

A run reads a command line and does what it asks for on a machine.  It ends with an exit
code, with what was written to the two streams, and with the disk as it is then.  A failure
is told to the user with the exit code of its cause; any other fault leaves a report in the
data directory and exit code 1.
-/

namespace OpenApiClient.CommandLine

/-- What a run finds: the disk, the environment, standard input, the web, an interpreter of
templates, whether standard output is a terminal, the kind of system and the user's home; a word
that no other file name holds, and a word for the time. -/
structure Machine where
  disk : Disk
  environment : List (String × String) := []
  input : String := ""
  fetch : String → Document.Reply := fun _ => .unreachable ""
  interpret : Php.Interpreter := fun _ _ _ => .error (.failed "")
  terminal : Bool := false
  system : String := "Linux"
  home : String
  nonce : String
  time : String

/-- How a run ends. -/
structure Outcome where
  code : Nat
  streams : Streams
  disk : Disk
  /-- The fault that was not foreseen, with the path of its report. -/
  crash : Option (Fault × Path) := none

/-- What a run has come to: its disk, and what was written. -/
structure Progress where
  disk : Disk
  streams : Streams := {}

/-- The steps of a run: they may fail and keep what they have done. -/
abbrev Running := ExceptT Fault (StateM Progress)

namespace Running

/-- Writes to the streams. -/
def emit (s : Streams) : Running Unit :=
  modify fun p => { p with streams := p.streams ++ s }

/-- Writes to the streams unless the text cannot be made. -/
def emitResult (s : Except Fault Streams) : Running Unit := do
  emit (← MonadExcept.ofExcept s)

/-- Writes log records where details are shown. -/
def emitLog (c : Console) (log : List Record) : Running Unit :=
  if c.verbose then emit { err := String.join (log.map fun r => r.line ++ "\n") } else pure ()

/-- Changes the disk, and writes what was noted while it was changed. -/
def file {α : Type} (c : Console) (action : Filing α) : Running α := do
  let (result, disk) := action.run { (← get).disk with log := #[] }
  modify fun p => { p with disk := { disk with log := #[] } }
  emitLog c disk.log.toList
  MonadExcept.ofExcept result

end Running

open Running

/-- The version of the program. -/
def version : String := "0.3.0"

/-- The console that the preferences of a run ask for. -/
def Machine.console (m : Machine) (p : Preferences) : Console :=
  Console.make (if p.json then some .json else none) p.noColor p.quiet p.verbose m.terminal
    m.environment

/-- The path of the project file. -/
def Machine.projectFile (m : Machine) : Path :=
  (Path.ofString Settings.projectFileName).absolute m.disk.working

/-- The settings of a run, given those that its task names. -/
def Machine.settings (m : Machine) (flags : Value.Entries) : Except Fault Settings := do
  let project ← m.disk.bytes? m.projectFile
  Settings.resolve m.projectFile.text project m.environment flags

/-- The templates that settings name, and the interpreter for them. -/
def Machine.templates (m : Machine) (s : Settings) : Php.Templates :=
  { file? := fun name => s.templatesDirectory.bind (Php.Templates.fileIn? m.disk · name)
    interpret := m.interpret }

/-- The value of a flag: a text, or null where the flag is not given. -/
def textFlag (name : String) (s : Option String) : Scalar × Value :=
  (.str name, (s.map Value.str).getD .null)

/-- The value of a flag: true, or null where the flag is not given. -/
def switchFlag (name : String) (b : Bool) : Scalar × Value :=
  (.str name, if b then .bool true else .null)

/-- The source of the document that a task is about. -/
def Task.source : Task → String
  | .generate source .. | .inspect source _ => source

/-- The settings that a task names, null where it does not name them. -/
def Task.flags : Task → Value.Entries
  | .generate _ output space clientName templates tests strict =>
    [textFlag "output" output, textFlag "namespace" space, textFlag "client_name" clientName,
      textFlag "templates_dir" templates, switchFlag "generate_tests" tests,
      switchFlag "strict_operation_ids" strict]
  | .inspect _ space => [textFlag "namespace" space]

/-- The settings of a task and the library that its source describes. -/
def compile (m : Machine) (c : Console) (t : Task) : Running (Settings × Library) := do
  let s ← MonadExcept.ofExcept (m.settings t.flags)
  emit (c.say .debug ("Loading OpenAPI document from " ++ t.source))
  let (log, loaded) := (Document.Source.ofString t.source).load m.disk m.input m.fetch
  emitLog c log
  let root ← MonadExcept.ofExcept loaded
  let declared ← MonadExcept.ofExcept (Document.version root)
  let description ← MonadExcept.ofExcept
    (Description.ofDocument (Document.ofValue root) declared)
  let (made, log) := Library.ofDescription description s
  emitLog c log.toList
  let l ← MonadExcept.ofExcept made
  emit (c.warn l.warnings)
  return (s, l)

/-- What a run says about the library it has written. -/
def summaryOf (s : Settings) (l : Library) (written : List Path) : Value :=
  let texts (ss : List String) : Value := .seq (ss.map .str)
  .map 0 [(.str "output", .str s.output), (.str "namespace", .str l.client.space),
    (.str "client", .str l.client.name), (.str "managers", texts (l.managers.map (·.name))),
    (.str "resources", texts (l.resources.map (·.name))),
    (.str "files", texts (written.map (·.text))), (.str "warnings", texts l.warnings)]

/-- How many classes and files a library has. -/
def completion (s : Settings) (l : Library) (written : List Path) : String :=
  "Generation complete: " ++ toString l.managers.length ++ " manager(s), " ++
    toString l.resources.length ++ " resource(s), " ++ toString written.length ++
    " file(s) in " ++ s.output

/-- Writes the library that the source of a task describes. -/
def generate (m : Machine) (c : Console) (t : Task) : Running Unit := do
  let (s, l) ← compile m c t
  let written ← file c
    (Output.write m.nonce (m.templates s) l (Path.ofString s.output) s.generateTests)
  emitResult (c.summarize (summaryOf s l written) (completion s l written))

/-- The headers of the table of methods. -/
def methodHeaders : List String := ["Class", "Method", "Operation", "Parameters", "Returns"]

/-- A method as a row of the table. -/
def methodRow (kind : ClassKind) (className : String) (r : Route) : List String :=
  let returned := match r.returnType.filter (!·.isEmpty) with
    | none => "-"
    | some type => if r.isArrayResponse then type ++ "[]" else type
  let parameters := Text.join ", " (r.methodParameters.map (·.variableName))
  [kind.key ++ ":" ++ className, r.id, r.operation.label,
    if parameters.isEmpty then "-" else parameters, returned]

/-- The methods of a library as rows of a table, managers first. -/
def methodRows (l : Library) : List (List String) :=
  (l.managers.flatMap fun c => c.routes.map (methodRow .manager c.name)) ++
  (l.resources.flatMap fun c => c.routes.map (methodRow .resource c.name))

/-- Shows the methods of the library that the source of a task describes. -/
def inspect (m : Machine) (c : Console) (t : Task) : Running Unit := do
  let (_, l) ← compile m c t
  let rows := methodRows l
  if rows.isEmpty then
    emit (c.say .info "No operation carries a Manager:<Name> or Resource:<Name> tag.")
  else emitResult (c.printTable methodHeaders rows)

/-- Does what a task asks for. -/
def perform (m : Machine) (c : Console) (t : Task) : Running Unit :=
  match t with
  | .generate .. => generate m c t
  | .inspect .. => inspect m c t

/-- The path of the report on a fault that was not foreseen. -/
def Machine.reportPath (m : Machine) : Path :=
  DataDirectory.path m.system m.home m.environment / "logs" / ("crash-" ++ m.time ++ ".log")

/-- The report on a fault that was not foreseen. -/
def reportText (words : List String) (fault : Fault) : String :=
  DataDirectory.programName ++ " " ++ version ++ "\nargv: " ++ Text.join " " words ++ "\n\n" ++
    (repr fault).pretty ++ "\n"

/-- How a task that has come so far ends. -/
def conclude (m : Machine) (c : Console) (words : List String) (p : Progress) :
    Except Fault Unit → Outcome
  | .ok () => { code := 0, streams := p.streams, disk := p.disk }
  | .error (.failed failure) =>
    { code := failure.exitCode
      streams := p.streams ++ c.say .error failure.message, disk := p.disk }
  | .error fault =>
    let (_, disk) := (Filing.write m.nonce m.reportPath (reportText words fault)).run p.disk
    { code := 1
      streams := p.streams ++
        c.say .error ("Unexpected error. Crash report: " ++ m.reportPath.text)
      disk, crash := some (fault, m.reportPath) }

/-- The exit code for command lines that ask for nothing that can be done. -/
def misuseCode : Nat := 2

/-- How the program is used. -/
def usage : String :=
  "Usage: phpclientgen [--version] [--json] [--no-color] [-q | --quiet] [-v | --verbose]\n" ++
  "         generate SOURCE [OUTPUT] [NAMESPACE] [--tests] [--client-name NAME]\n" ++
  "           [--strict-operation-ids] [--templates DIRECTORY]\n" ++
  "       phpclientgen inspect SOURCE [--namespace NAMESPACE]"

/-- Does what the words of a command line ask for. -/
def run (m : Machine) (words : List String) : Outcome :=
  match Request.ofWords? words with
  | none => { code := misuseCode, streams := { err := usage ++ "\n" }, disk := m.disk }
  | some .help => { code := 0, streams := Console.print usage, disk := m.disk }
  | some .version =>
    { code := 0, disk := m.disk
      streams := Console.print (DataDirectory.programName ++ " " ++ version) }
  | some (.run preferences task) =>
    let c := m.console preferences
    let (result, p) := (perform m c task).run { disk := m.disk }
    conclude m c words p result

end OpenApiClient.CommandLine
