import OpenApiClient.Entity.Registry
import OpenApiClient.Name
import OpenApiClient.Value.Basic

/-!
# Parameters

A parameter of a method: a name in the request, a variable in the method, and the place from
which its value comes when the method is called.  On the class of a resource the value may
come from the resource itself; then the caller does not give it.
-/

namespace OpenApiClient

/-- Where a parameter stands in a request. -/
inductive ParameterLocation where
  | path
  | query
  | body
  deriving DecidableEq, Repr

/-- The location as descriptions spell it. -/
def ParameterLocation.key : ParameterLocation → String
  | path => "path"
  | query => "query"
  | body => "body"

/-- Where the value of a parameter comes from. -/
inductive Source where
  /-- The caller gives it. -/
  | argument
  /-- A property of the resource, or a part of that property. -/
  | property (name : String) (part : Option String)
  /-- The identifier of the resource. -/
  | ownId
  deriving DecidableEq, Repr

/-- A parameter of a method.  What a body says of type, format, items and description is kept as
it was found. -/
structure Parameter where
  name : String
  variableName : String
  location : ParameterLocation
  required : Bool := false
  type : Value := .str "string"
  format : Value := .null
  items : Value := .null
  description : Value := .null
  source : Source := .argument
  deriving DecidableEq, Repr

namespace Parameter

/-- Whether the caller gives the value. -/
def isArgument (p : Parameter) : Bool := p.source = .argument

/-- Required parameters before optional ones, each group in its order. -/
def requiredFirst (ps : List Parameter) : List Parameter :=
  ps.filter (·.required) ++ ps.filter (!·.required)

/-- Puts a parameter under its name, in place of one that is there. -/
def insert (p : Parameter) : List (String × Parameter) → List (String × Parameter)
  | [] => [(p.name, p)]
  | (k, q) :: rest => if k = p.name then (k, p) :: rest else (k, q) :: insert p rest

/-- Parameters by name: the last one of a name, in the place of the first. -/
def byName (ps : List Parameter) : List (String × Parameter) :=
  ps.foldl (fun named p => insert p named) []

/-- The first parameter of every variable. -/
def distinct (ps : List Parameter) : List Parameter :=
  ps.foldl (fun found p =>
    if found.any (·.variableName == p.variableName) then found else found ++ [p]) []

end Parameter

namespace Source

/-- The first property whose key is the given one. -/
def propertyOfKey? (owner : Entity) (key : String) : Option Property :=
  owner.properties.find? fun p => Name.key p.name == key

/-- The binding of a name of the form `<word>Id`: the property `<word>`, by its identifier if
it is an entity that has one, or else the identifier of the resource itself if that is called
`<Word>` and has one. -/
def ofWord? (r : Registry) (owner : Entity) (className word : String) : Option Source :=
  match propertyOfKey? owner (Name.key word) with
  | some owned =>
    let hasId := (r.get? owned.type).any (·.hasProperty "id")
    some (.property owned.name (if hasId then some "id" else none))
  | none =>
    if Text.capitalizeFirst word = className && owner.hasProperty "id" then some .ownId else none

/-- Where the value of a parameter comes from, on the class of a name with the given resource:
from what the name `<word>Id` says, from the property of the same key, or from the caller. -/
def bind (r : Registry) (className : String) (owner : Option Entity) (name : String) : Source :=
  match owner with
  | none => .argument
  | some owner =>
    match (Name.idWord? name).bind (ofWord? r owner className) with
    | some source => source
    | none =>
      match propertyOfKey? owner (Name.key name) with
      | some p => .property p.name none
      | none => .argument

/-- Without a resource, every value is given by the caller. -/
@[simp] theorem bind_none (r : Registry) (className name : String) :
    bind r className none name = .argument := rfl

end Source

end OpenApiClient
