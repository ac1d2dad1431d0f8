import OpenApiClient.Description.Basic
import OpenApiClient.Entity.Building
import OpenApiClient.Expression.Synthesis

/-!
# What operations respond with

Two responses of an operation count: the first one that is not the default, and the default
one.  Of a response only the first media type counts.  A schema that refers to a component
makes it an entity; so does a list whose items refer to one.  Any other schema is written in
place and has no class, which is reported.
-/

namespace OpenApiClient

/-- What a response contributes to a method. -/
structure Response where
  status : String
  typeName : Option String := none
  isArray : Bool := false
  mediaType : Scalar := .null
  expression : Option Expression := none
  deriving Repr

/-- The type that a response is turned into, if it has a name. -/
def Response.namedType? (r : Response) : Option String := r.typeName.filter (!·.isEmpty)

/-- Fills in the expression unless it is there. -/
def Response.complete (registry : Registry) (r : Response) : Response :=
  match r.namedType?, r.expression with
  | some type, none => { r with expression := some (.ofResponse registry type r.isArray) }
  | _, _ => r

/-- The responses of an operation that count, and reports of schemas that have no class. -/
structure Responses where
  success : Option Response := none
  default : Option Response := none
  unsupported : List String := []
  deriving Repr

namespace Responses

/-- The responses that are there. -/
def both (rs : Responses) : List Response := rs.success.toList ++ rs.default.toList

/-- The types that the responses are turned into. -/
def referencedTypes (rs : Responses) : List String :=
  Expression.firstMet (rs.both.filterMap Response.namedType?)

/-- Fills in the expressions that are not there. -/
def complete (registry : Registry) (rs : Responses) : Responses :=
  { rs with
    success := rs.success.map (·.complete registry)
    default := rs.default.map (·.complete registry) }

end Responses

namespace Response

/-- The key of the default response. -/
def defaultKey : String := "default"

/-- The schema of a node, null if there is none. -/
def schemaOf (media : Value) : Value := media.get "schema"

/-- The pointer to the entity that a schema names, and whether it names a list of it. -/
def entityPointer? (schema : Value) : Option (Value × Bool) :=
  match schema.reference? with
  | some pointer => some (pointer, false)
  | none =>
    if (schema.get "type").same (.str "array") then
      (schema.get "items").reference?.map fun pointer => (pointer, true)
    else none

/-- The report of a schema that has no class. -/
def inlineReport (label status : String) (mediaType : Scalar) : String :=
  label ++ ": response " ++ status ++ " (" ++ mediaType.text ++
    ") uses an inline schema; no return type generated"

/-- What a response contributes, and the report of its schema if it has no class. -/
def ofNode (doc : Document) (label status : String) (node : Value) :
    Building (Response × List String) := do
  let settled ← doc.settle node
  match settled.get "content" with
  | .map _ ((mediaType, media) :: _) =>
    let shape : Response := { status, mediaType }
    let schema := schemaOf media
    if schema.isNull then return (shape, [])
    match entityPointer? schema with
    | some (pointer, isArray) =>
      let type ← Building.ofPointer doc pointer []
      return ({ shape with typeName := some type, isArray }, [])
    | none =>
      let report := inlineReport label status mediaType
      Building.note .warning "compiler.expressions" report
      return (shape, [report])
  | _ =>
    Building.note .debug "compiler.expressions"
      (label ++ ": response " ++ status ++ " has no content")
    return ({ status }, [])

end Response

/-- The responses of an operation.  The entities they name are made on the way; expressions are
left open until all entities are known. -/
def Operation.analyze (doc : Document) (o : Operation) : Building Responses := do
  let success ← match o.responses.find? (·.1 != Response.defaultKey) with
    | none => pure none
    | some (status, node) => some <$> Response.ofNode doc o.label status node
  let default ← match o.responses.lookup Response.defaultKey with
    | none => pure none
    | some node => some <$> Response.ofNode doc o.label Response.defaultKey node
  return {
    success := success.map (·.1)
    default := default.map (·.1)
    unsupported := (success.toList ++ default.toList).flatMap (·.2) }

end OpenApiClient
