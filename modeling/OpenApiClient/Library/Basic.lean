import OpenApiClient.Operation.Response
import OpenApiClient.Parameter.Basic

/-!
# Libraries

A library as it is going to be written: a client, managers, resources and exceptions.  Nothing
in it refers back to the description.
-/

namespace OpenApiClient

/-- A method: an operation as it appears on a class. -/
structure Route where
  operation : Operation
  pathParameters : List (String × Parameter)
  queryParameters : List (String × Parameter)
  bodyParameters : List (String × Parameter)
  methodParameters : List Parameter
  requestType : Option String
  responses : Responses
  deriving Repr

namespace Route

/-- The identifier, which is the name of the method. -/
def id (r : Route) : String := r.operation.operationId

/-- The status code that a response is expected to have. -/
def expectedStatus (r : Route) : Option String := r.responses.success.map (·.status)

/-- The type that a response is turned into. -/
def returnType (r : Route) : Option String := r.responses.success.bind (·.typeName)

/-- Whether a response is a list of that type. -/
def isArrayResponse (r : Route) : Bool := r.responses.success.any (·.isArray)

/-- How a response is turned into that type. -/
def expression (r : Route) : Option Expression := r.responses.success.bind (·.expression)

/-- The type that the default response is turned into. -/
def defaultReturnType (r : Route) : Option String := r.responses.default.bind (·.typeName)

/-- Whether the default response is a list of that type. -/
def isDefaultArrayResponse (r : Route) : Bool := r.responses.default.any (·.isArray)

/-- How the default response is turned into that type. -/
def defaultExpression (r : Route) : Option Expression := r.responses.default.bind (·.expression)

end Route

/-- A class: its name, its namespace, its title, the names it imports and its methods. -/
structure GeneratedClass where
  name : String
  space : String
  title : String
  uses : List String
  routes : List Route
  deriving Repr

/-- The class of a resource. -/
structure ResourceClass extends GeneratedClass where
  properties : List Property
  deriving Repr

/-- The class of an exception and the template it is written with. -/
structure ExceptionClass where
  name : String
  space : String
  title : String
  template : String
  deriving DecidableEq, Repr

/-- The class of the client. -/
structure ClientClass where
  name : String
  space : String
  title : String
  baseUrl : String
  information : Information
  usesBearerToken : Bool
  managers : List String
  uses : List String
  deriving Repr

/-- A library. -/
structure Library where
  client : ClientClass
  managers : List GeneratedClass
  resources : List ResourceClass
  exceptions : List ExceptionClass
  warnings : List String
  deriving Repr

namespace Library

/-- The resource of a name. -/
def resource? (l : Library) (name : String) : Option ResourceClass :=
  l.resources.find? (·.name == name)

/-- The manager of a name. -/
def manager? (l : Library) (name : String) : Option GeneratedClass :=
  l.managers.find? (·.name == name)

end Library

end OpenApiClient
