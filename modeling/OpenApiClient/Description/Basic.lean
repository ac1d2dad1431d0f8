import OpenApiClient.Document

/-!
# Descriptions of interfaces

What a document says about an interface: general information, servers, operations and ways
to authenticate.  Parameters, request body and responses of an operation stay as they stand
in the document, references included.
-/

namespace OpenApiClient

/-- Methods of requests. -/
inductive Method where
  | get
  | post
  | put
  | patch
  | delete
  | head
  | options
  | trace
  deriving DecidableEq, Repr

namespace Method

/-- All methods. -/
def all : List Method := [get, post, put, patch, delete, head, options, trace]

/-- The key of a method in a document. -/
def key : Method → String
  | get => "get"
  | post => "post"
  | put => "put"
  | patch => "patch"
  | delete => "delete"
  | head => "head"
  | options => "options"
  | trace => "trace"

/-- The method in a request line. -/
def name : Method → String
  | get => "GET"
  | post => "POST"
  | put => "PUT"
  | patch => "PATCH"
  | delete => "DELETE"
  | head => "HEAD"
  | options => "OPTIONS"
  | trace => "TRACE"

/-- The method with a key. -/
def ofKey? (s : String) : Option Method := all.find? (·.key == s)

@[simp] theorem ofKey?_key (m : Method) : ofKey? m.key = some m := by cases m <;> decide

end Method

/-- Title, version and description of an interface. -/
structure Information where
  title : String
  version : String
  description : Option String
  deriving DecidableEq, Repr

/-- Where an interface is served. -/
structure Server where
  url : String
  description : Option String
  deriving DecidableEq, Repr

/-- A way to authenticate. -/
structure SecurityScheme where
  name : String
  type : String
  description : Option String
  scheme : Option String
  bearerFormat : Option String
  deriving DecidableEq, Repr

/-- An operation: what a method does at a path.  Operations written alike are told apart by their
origins. -/
structure Operation where
  origin : Nat := 0
  path : String
  method : Method
  operationId : String
  summary : Option String
  description : Option String
  tags : List String
  parameters : List Value
  requestBody : Option Value
  responses : List (String × Value)
  deprecated : Bool
  deriving Repr

/-- Method and path, by which messages name an operation. -/
def Operation.label (o : Operation) : String := o.method.name ++ " " ++ o.path

/-- A whole description, with the document that its references lead into. -/
structure Description where
  information : Information
  servers : List Server
  operations : List Operation
  securitySchemes : List (String × SecurityScheme)
  version : String
  document : Document

end OpenApiClient
