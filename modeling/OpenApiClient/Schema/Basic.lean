import OpenApiClient.Pointer

/-!
# Schemas

What a schema says about the type of a value.  The type is a text, or a list of types from
which the first one besides `null` is taken.  A component that is neither an object nor an
array nor a composition of others is *scalar*: what refers to it takes over its type.
-/

namespace OpenApiClient.Schema

/-- The type that the keyword `type` names. -/
def typeName? : Value → Option Value
  | .seq items =>
    match items.find? fun t => !t.same (.str "null") with
    | some t => if t.isNull then none else some t
    | none => none
  | .scalar (.str s) => some (.str s)
  | _ => none

@[simp] theorem typeName?_str (s : String) : typeName? (.str s) = some (.str s) := rfl

/-- Whether a type is one that has parts of its own. -/
def isComposite (type : Value) : Bool := type.same (.str "object") || type.same (.str "array")

/-- Whether a node is a scalar schema. -/
def isScalar (node : Value) : Bool :=
  node.isMap && !node.has "properties" && !node.has "allOf" &&
    (match typeName? (node.get "type") with
      | none => false
      | some type => !isComposite type)

/-- A reference with a pointer. -/
def referenceTo (pointer : Value) : Value := .map 0 [(.str "$ref", pointer)]

/-- The scalar schema that a pointer leads to, if it leads to one. -/
def scalarTarget? (doc : Document) (pointer : Value) : Except Fault (Option Value) :=
  (doc.settle (referenceTo pointer)).map fun node => if isScalar node then some node else none

/-- How a schema types a property. -/
inductive Typing where
  /-- The schema has a shape that no property is made of. -/
  | unsupported
  /-- A type that is no entity, with what else is said of it. -/
  | plain (type format description items : Value)
  /-- The entity that a pointer leads to. -/
  | entity (pointer description : Value)
  /-- A list of the entity that a pointer leads to. -/
  | entities (pointer description : Value)
  deriving DecidableEq, Repr

/-- The typing of an array by the schema of its items. -/
def Typing.ofItems (doc : Document) (items description : Value) : Except Fault Typing :=
  match items.reference? with
  | some pointer => do
    match ← scalarTarget? doc pointer with
    | some node =>
      return .plain (.str "array") .null description ((typeName? (node.get "type")).getD .null)
    | none => return .entities pointer description
  | none =>
    match items.get "type" with
    | .scalar (.str type) => .ok (.plain (.str "array") .null description (.str type))
    | _ => .ok (.plain (.str "array") .null description .null)

/-- The typing of a property by its schema.  A reference is typed by what it leads to: by its
type if that is scalar, otherwise by the entity of its name. -/
def Typing.ofSchema (doc : Document) (schema : Value) : Except Fault Typing :=
  match schema.reference? with
  | some pointer => do
    match ← scalarTarget? doc pointer with
    | some node =>
      return .plain ((typeName? (node.get "type")).getD .null) (node.get "format")
        ((schema.get "description").orElse (node.get "description")) .null
    | none => return .entity pointer (schema.get "description")
  | none =>
    match typeName? (schema.get "type") with
    | none => .ok .unsupported
    | some type =>
      if type.same (.str "array") then
        ofItems doc (schema.get "items") (schema.get "description")
      else .ok (.plain type (schema.get "format") (schema.get "description") .null)

/-- The type that a parameter or a field of a body takes from its schema: text if the schema
says nothing of it. -/
def declaredType (schema : Value) : Value :=
  match schema.get? "type" with
  | none => .str "string"
  | some (.seq items) => (items.find? fun t => !t.same (.str "null")).getD (.str "string")
  | some type => .str type.text

end OpenApiClient.Schema
