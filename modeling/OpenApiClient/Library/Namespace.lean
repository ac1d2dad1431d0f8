import OpenApiClient.Settings.Basic
import OpenApiClient.Text.Basic

/-!
# Namespaces

Qualified names are joined by backslashes.  The classes of a library stand in namespaces below
a base namespace; a class imports the names that it uses from other namespaces than its own.
-/

namespace OpenApiClient.Namespace

open Text

/-- A namespace with backslashes for slashes and none at its ends. -/
def normalize (s : String) : String :=
  String.ofList (trim (· = '\\') (s.toList.map fun c => if c = '/' then '\\' else c))

/-- The parts that are not empty, joined. -/
def qualify (parts : List String) : String := join "\\" (parts.filter (!·.isEmpty))

/-- What stands before the last backslash, nothing if there is none. -/
def ofName (name : String) : String := join "\\" (cut '\\' name).dropLast

/-- What stands after the last backslash. -/
def lastPart (name : String) : String := (cut '\\' name).getLast?.getD ""

/-- Adds a name to the imports of a namespace, unless it belongs there or is imported. -/
def addImport (own : String) (imports : List String) (name : String) : List String :=
  if ofName name = own || imports.contains name then imports else imports ++ [name]

/-- The imports that a namespace needs for some names. -/
def imports (own : String) (names : List String) : List String :=
  names.foldl (addImport own) []

/-- The name of the client: the one that is set, or the last part of the base namespace followed
by `Client`. -/
def clientName (s : Settings) : String :=
  match s.clientName.filter (!·.isEmpty) with
  | some name => name
  | none =>
    let parts := (cut '\\' (normalize s.baseNamespace)).filter (!·.isEmpty)
    (parts.getLast?.getD "Api") ++ "Client"

/-- Where managers stand. -/
def managers : String := "Managers"

/-- Where resources stand. -/
def resources : String := "Resources"

/-- Where exceptions stand. -/
def exceptions : String := "Exceptions"

/-- The exception for responses of an unexpected status. -/
def unexpectedResponse : String := "UnexpectedResponseException"

/-- The exception that all others extend. -/
def apiException : String := "ApiException"

end OpenApiClient.Namespace
