import OpenApiClient.Library.Basic
import OpenApiClient.Library.Namespace
import OpenApiClient.Operation.Classification
import OpenApiClient.Parameter.Extraction
import OpenApiClient.Php.Type

/-!
# Making a library of a description

First all operations are classified.  Then the methods of the managers are made, then those of
the resources; the fields of request bodies may bring in further entities on the way.  At last
every entity becomes a class.  The responses of an operation get their expressions with the
first method that is made of it, and all its methods share them.
-/

namespace OpenApiClient.Library

/-- The making of methods, with the responses that have their expressions, by the position of
their operations. -/
abbrev Assembling := StateT (List (Nat × Responses)) Building

/-- The responses of an operation, with their expressions. -/
def completed (p : PlacedOperation) : Assembling Responses := do
  match (← get).lookup p.position with
  | some rs => return rs
  | none =>
    let rs := p.responses.complete (← Building.registry)
    modify ((p.position, rs) :: ·)
    return rs

/-- The method of an operation on a class. -/
def route (doc : Document) (kind : ClassKind) (className : String) (p : PlacedOperation) :
    Assembling Route := do
  let o := p.operation
  let responses ← completed p
  let r ← Building.registry
  let pathParameters ← Parameter.inPath doc r kind className o
  let queryParameters ← Parameter.inQuery doc r kind className o
  let bodyParameters ← Parameter.inBody doc o
  let methodParameters ← Parameter.ofMethod doc kind className o
  let requestType := Value.scalar (← Parameter.contentType o)
  Fields.fill .route [Fields.optionalText "request_content_type" requestType]
    { operation := o, pathParameters, queryParameters, bodyParameters, methodParameters
      requestType := Fields.textOf? requestType, responses }

/-- The entity that a type or the items of a field name, if there is one. -/
def entityOf? (r : Registry) (type : Value) : Except Fault (Option String) :=
  if !type.isFilled then .ok none
  else if !type.isKey then .error (.refused .notAKey)
  else match type with
    | .scalar (.str name) =>
      .ok (if !Php.isPrimitive name && r.contains name then some name else none)
    | _ => .ok none

/-- The entities that a method builds or accepts. -/
def typesOf (r : Registry) (route : Route) : Except Fault (List String) := do
  let built := [route.expression, route.defaultExpression].flatMap fun e =>
    (e.map (·.dependencies)).getD []
  let accepted ← route.bodyParameters.mapM fun (_, p) => do
    return [← entityOf? r p.type, ← entityOf? r p.items].filterMap id
  return built ++ accepted.flatten

/-- The methods of a class and the entities that they build or accept. -/
def routes (doc : Document) (b : Bucket) : Assembling (List Route × List String) := do
  let made ← b.routes.mapM fun (_, p) => do
    let made ← tryCatch (route doc b.kind b.name p) fun fault =>
      throw (fault.during p.operation.label)
    let types ← typesOf (← Building.registry) made
    return (made, types)
  return (made.map (·.1), Expression.firstMet (made.flatMap (·.2)))

/-- The namespace of the classes of a kind. -/
def spaceOf (base : String) : ClassKind → String
  | .manager => Namespace.qualify [base, Namespace.managers]
  | .resource => Namespace.qualify [base, Namespace.resources]

/-- The names that a class imports, given the entities that it uses. -/
def usesOf (base client : String) (kind : ClassKind) (entities : List String) : List String :=
  Namespace.imports (spaceOf base kind) <|
    Namespace.qualify [base, client] ::
      entities.map (fun e => Namespace.qualify [base, Namespace.resources, e]) ++
      [Namespace.qualify [base, Namespace.exceptions, Namespace.unexpectedResponse]]

/-- Whether a way to authenticate uses a bearer token. -/
def isBearer (s : SecurityScheme) : Bool :=
  let type := Text.small s.type
  type = "oauth2" || (type = "http" && Text.small (s.scheme.getD "") = "bearer")

/-- The client of a library. -/
def clientOf (d : Description) (base name : String) (managers : List String) : ClientClass :=
  { name, space := base, title := d.information.title ++ " client class"
    baseUrl := (d.servers.head?.map (·.url)).getD ""
    information := d.information
    usesBearerToken := d.securitySchemes.any fun (_, s) => isBearer s
    managers
    uses := Namespace.imports base
      (managers.map fun m => Namespace.qualify [base, Namespace.managers, m]) }

/-- The exceptions of every library. -/
def exceptionsOf (base : String) : List ExceptionClass :=
  let space := Namespace.qualify [base, Namespace.exceptions]
  [{ name := Namespace.apiException, space
     title := "Base class of the exceptions thrown by the client"
     template := "api_exception.php.j2" },
   { name := Namespace.unexpectedResponse, space
     title := "Thrown when a response does not have the expected status code"
     template := "unexpected_response_exception.php.j2" }]

/-- Makes the library of classified operations. -/
def ofClassification (d : Description) (s : Settings) (c : Classification) :
    Building Library := do
  let base := Namespace.normalize s.baseNamespace
  let client := Namespace.clientName s
  let make : Assembling (List GeneratedClass × List (Bucket × List Route × List String)) := do
    let managers ← (c.ofKind .manager).mapM fun b => do
      let (made, types) ← routes d.document b
      return { name := b.name, space := spaceOf base .manager
               title := b.name ++ " manager class"
               uses := usesOf base client .manager (b.uses ++ types), routes := made }
    let resources ← (c.ofKind .resource).mapM fun b => return (b, ← routes d.document b)
    return (managers, resources)
  let ((managers, tagged), _) ← make.run []
  let resources := (← Building.registry).entities.map fun e =>
    let (uses, made, types) := match tagged.find? fun (b, _) => b.name = e.name with
      | some (b, made, types) => (b.uses, made, types)
      | none => ([], [], [])
    { name := e.name, space := spaceOf base .resource, title := e.name ++ " resource class"
      uses := usesOf base client .resource (e.uses ++ uses ++ types)
      routes := made, properties := e.properties : ResourceClass }
  Building.note .info "compiler.assembler"
    ("Compiled " ++ toString managers.length ++ " manager(s), " ++
      toString resources.length ++ " resource(s) from " ++ toString d.operations.length ++
      " operation(s)")
  return { client := clientOf d base client (managers.map (·.name))
           managers, resources, exceptions := exceptionsOf base, warnings := c.warnings }

/-- Makes the library of a description, with what is noted on the way. -/
def ofDescription (d : Description) (s : Settings) : Except Fault Library × Array Record :=
  let (classified, c) :=
    Classification.ofOperations d.document s.strictOperationIds d.operations
  match classified with
  | .error fault => (.error fault, c.build.log)
  | .ok () =>
    let (made, b) := (ofClassification d s c).run c.build
    (made, b.log)

end OpenApiClient.Library
