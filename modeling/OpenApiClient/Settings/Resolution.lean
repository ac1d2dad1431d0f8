import OpenApiClient.Fields
import OpenApiClient.Json.Reader
import OpenApiClient.Settings.Basic
import OpenApiClient.Text.Utf8
import OpenApiClient.Value.Text

/-!
# Where settings come from

A setting is taken from the command line, else from the environment, else from the project
file, else it has its default.  Values are checked once the sources have been laid over each
other, so a wrong value counts only where no stronger source covers it; a name that is no
setting always counts.
-/

namespace OpenApiClient.Settings

/-- The names of all settings. -/
def fieldNames : List String :=
  ["namespace", "output", "client_name", "generate_tests", "strict_operation_ids",
    "templates_dir"]

/-- The settings that hold some values. -/
def ofEntries (es : Value.Entries) : Except Fault Settings :=
  let v := Value.map 0 es
  let given (name : String) (default : Value) := (v.get? name).getD default
  let baseNamespace := given "namespace" (.str "Api")
  let output := given "output" (.str "./out")
  let clientName := given "client_name" .null
  let generateTests := given "generate_tests" (.bool false)
  let strict := given "strict_operation_ids" (.bool false)
  let templates := given "templates_dir" .null
  let unknown := es.filterMap fun (key, _) =>
    if fieldNames.contains key.text then none
    else some { field := key.text, kind := .unknownField }
  Fields.fill .options
    ([Fields.text "namespace" baseNamespace, Fields.text "output" output,
      Fields.optionalText "client_name" clientName,
      Fields.boolean "generate_tests" generateTests,
      Fields.boolean "strict_operation_ids" strict,
      Fields.optionalText "templates_dir" templates] ++ unknown.map some)
    { baseNamespace := Fields.textOf baseNamespace
      output := Fields.textOf output
      clientName := Fields.textOf? clientName
      generateTests := (Fields.truth generateTests).toOption.getD false
      strictOperationIds := (Fields.truth strict).toOption.getD false
      templatesDirectory := Fields.textOf? templates }

/-- The variables of the environment that hold settings. -/
def environmentNames : List (String × String) :=
  [("PHPCLIENTGEN_NAMESPACE", "namespace"), ("PHPCLIENTGEN_OUTPUT", "output"),
    ("PHPCLIENTGEN_TEMPLATES", "templates_dir")]

/-- The values that an environment gives; empty ones give nothing. -/
def ofEnvironment (environment : List (String × String)) : Value.Entries :=
  environmentNames.filterMap fun (variableName, field) =>
    ((environment.lookup variableName).filter (!·.isEmpty)).map fun s => (.str field, .str s)

/-- The name of the project file. -/
def projectFileName : String := "phpclientgen.json"

/-- The values in a project file, given the path it is reported under. -/
def ofProjectFile (path : String) (bytes : List UInt8) : Except Fault Value.Entries :=
  match Text.decodeUtf8 bytes with
  | .error _ => .error (.refused .notUtf8)
  | .ok text =>
    match Json.read (String.ofList (Text.unixLines text.toList)) with
    | .error .tooManyDigits => .error (.refused .notANumber)
    | .error (.malformed defect) => .error (.of (.invalidProjectFile path (.malformed defect)))
    | .ok (.map _ es) => .ok es
    | .ok _ => .error (.of (.invalidProjectFile path .notAnObject))

/-- Lays values over others. -/
def overlay (lower upper : Value.Entries) : Value.Entries :=
  upper.foldl (fun es (key, v) => Value.insert key v es) lower

/-- The settings of a run: the values in the project file, under those of the environment,
under those of the command line that are not null. -/
def resolve (path : String) (project : Option (List UInt8))
    (environment : List (String × String)) (flags : Value.Entries) :
    Except Fault Settings := do
  let base ← match project with
    | none => pure []
    | some bytes => ofProjectFile path bytes
  let values := overlay (overlay base (ofEnvironment environment))
    (flags.filter fun (_, v) => !v.isNull)
  match ofEntries values with
  | .error (.invalid .options issues) => .error (.of (.invalidOptions issues))
  | result => result

end OpenApiClient.Settings
