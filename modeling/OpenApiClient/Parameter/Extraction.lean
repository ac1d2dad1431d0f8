import OpenApiClient.Operation.Tag
import OpenApiClient.Description.Basic
import OpenApiClient.Entity.Building
import OpenApiClient.Parameter.Basic

/-!
# The parameters of an operation

An operation has parameters in its path, in its query and in its body; other places do not
reach a method.  The fields of a body that is described in place, or by a schema elsewhere,
are parameters one by one.  The parameters of the method are all of these, one for every
variable, without those that a resource provides itself.
-/

namespace OpenApiClient

namespace Parameter

/-- The resource whose class a method stands on. -/
def owner? (r : Registry) (kind : ClassKind) (className : String) : Option Entity :=
  match kind with
  | .manager => none
  | .resource => r.get? className

/-- The parameter that a node describes, if it stands at the location. -/
def ofNode (doc : Document) (r : Registry) (kind : ClassKind) (className : String)
    (location : ParameterLocation) (node : Value) : Except Fault (Option Parameter) := do
  let settled ← doc.settle node
  if !settled.isMap || !(settled.get "in").same (.str location.key) then return none
  let name := ((settled.get? "name").getD (.str "")).text
  let schema ← doc.settle (settled.get "schema")
  let type := Schema.declaredType schema
  let format := schema.get "format"
  let description := settled.get "description"
  some <$> Fields.fill .parameter
    [Fields.text "type" type, Fields.optionalText "format" format,
      Fields.optionalText "description" description]
    { name, variableName := Name.variableName name, location
      required := location = .path || (settled.get "required").isFilled
      type := Fields.plain type, format := Fields.plain format
      description := Fields.plain description
      source := Source.bind r className (owner? r kind className) name }

/-- The parameters of an operation at a location. -/
def located (doc : Document) (r : Registry) (kind : ClassKind) (className : String)
    (location : ParameterLocation) (o : Operation) : Except Fault (List Parameter) :=
  (·.filterMap id) <$> o.parameters.mapM (ofNode doc r kind className location)

/-- The parameters in the path, in the order of the description. -/
def inPath (doc : Document) (r : Registry) (kind : ClassKind) (className : String)
    (o : Operation) : Except Fault (List (String × Parameter)) :=
  byName <$> located doc r kind className .path o

/-- The parameters in the query, required ones first. -/
def inQuery (doc : Document) (r : Registry) (kind : ClassKind) (className : String)
    (o : Operation) : Except Fault (List (String × Parameter)) :=
  (fun ps => byName (requiredFirst ps)) <$> located doc r kind className .query o

/-- The first media type of the body and its schema.  A body elsewhere cannot be used. -/
def requestMedia? (o : Operation) : Except Fault (Option (Scalar × Value)) :=
  match o.requestBody with
  | none => .ok none
  | some body =>
    match body.reference? with
    | some pointer => .error (.ofValue .referencedBody pointer)
    | none =>
      match body.get "content" with
      | .map _ ((mediaType, media) :: _) => .ok (some (mediaType, media.get "schema"))
      | _ => .ok none

/-- The media type of the request, null if there is none. -/
def contentType (o : Operation) : Except Fault Scalar :=
  (fun media => (media.map (·.1)).getD .null) <$> requestMedia? o

/-- The type and the items that a field of a body takes from the schema of its items. -/
def itemsOf (doc : Document) (items : Value) : Building Value := do
  match items.reference? with
  | some pointer =>
    match ← Schema.scalarTarget? doc pointer with
    | some node => return Schema.declaredType node
    | none => return .str (← Building.ofPointer doc pointer [])
  | none => return if items.isMap then Schema.declaredType items else .null

/-- The parameter for a field of a body. -/
def ofField (doc : Document) (name : String) (schema : Value) (required : Bool) :
    Building Parameter := do
  let p : Parameter :=
    { name, variableName := Name.variableName name, location := .body, required }
  if !schema.isMap then return p
  let description := schema.get "description"
  match schema.reference? with
  | some pointer =>
    match ← Schema.scalarTarget? doc pointer with
    | some node =>
      return { p with
        type := Schema.declaredType node
        format := node.get "format"
        description := description.orElse (node.get "description") }
    | none =>
      return { p with type := .str (← Building.ofPointer doc pointer []), description }
  | none =>
    let type := Schema.declaredType schema
    if type.same (.str "array") then
      return { p with type, items := ← itemsOf doc (schema.get "items"), description }
    else return { p with type, format := schema.get "format", description }

/-- The names of the fields of a body: required ones in the order in which they are required,
then the others.  Whatever can be walked through may hold the names. -/
def fieldNames (properties required : Value) : Except Fault (List Value × List Value) := do
  let first ← (← required.membersOrNone).filterM properties.contains
  let rest := (← properties.members).filter fun n => !first.any (·.same n)
  return (first, rest)

/-- The fields of the body, required ones first. -/
def inBody (doc : Document) (o : Operation) : Building (List (String × Parameter)) := do
  match ← requestMedia? o with
  | none => return []
  | some (_, schema) =>
    let settled ← doc.settle schema
    if !settled.isMap then return []
    let properties := (settled.get "properties").orElse (.map 0 [])
    let (first, rest) ← fieldNames properties (settled.get "required")
    let fields ← (first ++ rest).mapM fun name => do
      let schema ← properties.index name
      match name with
      | .scalar (.str name) => ofField doc name schema (first.any (·.same (.str name)))
      | _ => throw (.refused .notText)
    return byName fields

/-- The parameters of the method: one for every variable, required ones first, without those
that a resource provides. -/
def ofMethod (doc : Document) (kind : ClassKind) (className : String) (o : Operation) :
    Building (List Parameter) := do
  let r ← Building.registry
  let path ← inPath doc r kind className o
  let query ← inQuery doc r kind className o
  let body ← inBody doc o
  let all := (path ++ query ++ body).map (·.2)
  let given := if kind = .resource then all.filter (·.isArgument) else all
  return requiredFirst (distinct given)

end Parameter

end OpenApiClient
