import OpenApiClient.Fault
import OpenApiClient.Text.Quoted

/-!
# The wording of failures

Every cause has a message and an exit code.  The message of a failure ends with the
operation, if one is noted.
-/

namespace OpenApiClient

open Text

/-- The report of the file system. -/
def FileProblem.message : FileProblem → String
  | .missing path => "[Errno 2] No such file or directory: " ++ quoted path
  | .exists path => "[Errno 17] File exists: " ++ quoted path
  | .isADirectory source target =>
    "[Errno 21] Is a directory: " ++ quoted source ++ " -> " ++ quoted target
  | .notADirectory path => "[Errno 20] Not a directory: " ++ quoted path
  | .busy source target =>
    "[Errno 16] Device or resource busy: " ++ quoted source ++ " -> " ++ quoted target
  | .nameTooLong path => "[Errno 36] File name too long: " ++ quoted path

/-- What is wrong with a project file. -/
def ProjectFileReason.message : ProjectFileReason → String
  | .malformed defect => defect.message
  | .notAnObject => "expected a JSON object"

/-- The message of a cause. -/
def Cause.message : Cause → String
  | .emptySource source => "OpenAPI document is empty: " ++ source
  | .fileNotFound path => "OpenAPI file not found: " ++ path
  | .unreadableFile path reason => "Failed to read OpenAPI file " ++ path ++ ": " ++ reason
  | .httpStatus status url =>
    "HTTP " ++ toString status ++ " fetching OpenAPI document from " ++ url
  | .unreachable url reason =>
    "Failed to fetch OpenAPI document from " ++ url ++ ": " ++ reason
  | .malformedDocument json =>
    "Failed to parse OpenAPI document as JSON or YAML\n  JSON error: " ++ json.message ++
      "\n  YAML error: <yaml>"
  | .notAnObject kind => "OpenAPI document must be an object (got " ++ kind ++ ")"
  | .oldFormat version =>
    "Swagger " ++ version ++ " is not supported. " ++
      "Only OpenAPI 3.x documents can be generated from."
  | .missingVersion => "Missing 'openapi' field. Is this an OpenAPI 3.x document?"
  | .unsupportedVersion version =>
    "Unsupported OpenAPI version: " ++ version ++ ". Only 3.x is supported."
  | .unsupportedReference pointer =>
    "Unsupported $ref '" ++ pointer ++
      "': only internal '#/components/...' references are handled"
  | .referenceNotFound pointer missing =>
    "Cannot resolve $ref '" ++ pointer ++ "': '" ++ missing ++ "' not found in components"
  | .referencedBody pointer =>
    "Unsupported request body '$ref: " ++ pointer ++
      "': request bodies must be declared inline"
  | .duplicateOperation operationId className =>
    "Duplicate operationId '" ++ operationId ++ "' on class '" ++ className ++ "'"
  | .templateFailed template reason =>
    "Failed to render template '" ++ template ++ "': " ++ reason
  | .cannotWrite path problem => "Cannot write " ++ path ++ ": " ++ problem.message
  | .cannotCreate path problem =>
    "Cannot create directory " ++ path ++ ": " ++ problem.message
  | .invalidProjectFile path reason =>
    "Invalid project config at " ++ path ++ ": " ++ reason.message
  | .invalidOptions _ => "Invalid generator options: <details>"

/-- The exit code of a cause: 7 for documents that cannot be used, 8 for references, 9 for
constructs that cannot be expressed, 11 for output, 1 for options. -/
def Cause.exitCode : Cause → Nat
  | .emptySource _ | .fileNotFound _ | .unreadableFile _ _ | .httpStatus _ _
  | .unreachable _ _ | .malformedDocument _ | .notAnObject _ | .oldFormat _
  | .missingVersion | .unsupportedVersion _ => 7
  | .unsupportedReference _ | .referenceNotFound _ _ => 8
  | .referencedBody _ | .duplicateOperation _ _ => 9
  | .templateFailed _ _ | .cannotWrite _ _ | .cannotCreate _ _ => 11
  | .invalidProjectFile _ _ | .invalidOptions _ => 1

/-- The message of a failure. -/
def Failure.message (f : Failure) : String :=
  match f.operation with
  | none => f.cause.message
  | some o => f.cause.message ++ " (in operation " ++ o ++ ")"

/-- The exit code of a failure. -/
def Failure.exitCode (f : Failure) : Nat := f.cause.exitCode

end OpenApiClient
