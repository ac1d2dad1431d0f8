import OpenApiClient.Operation.Response
import OpenApiClient.Operation.Tag

/-!
# Operations on classes

Every operation is placed on the classes that its tags name.  Its responses are looked at
once, whether it is placed or not, and all its classes share the outcome.  A manager uses the
first resource that its operation names beside it, and every class uses the types that the
responses of its operations are turned into.

Two operations of one identifier cannot stand on one class: the later one takes the place of
the earlier one, or the classification fails if it is strict.  An operation that is listed more
than once is no other one to itself.
-/

namespace OpenApiClient

/-- An operation placed on a class, with the position at which it is listed and the responses that
were found for it there. -/
structure PlacedOperation where
  position : Nat
  operation : Operation
  responses : Responses
  deriving Repr

/-- A class to be generated: the operations placed on it by their identifiers, and the types
it uses. -/
structure Bucket where
  kind : ClassKind
  name : String
  routes : List (String × PlacedOperation) := []
  uses : List String := []
  deriving Repr

namespace Bucket

/-- Notes that the class uses a type other than itself. -/
def addUse (b : Bucket) (name : String) : Bucket :=
  if name = b.name || b.uses.contains name then b else { b with uses := b.uses ++ [name] }

/-- The operation that the class holds under an identifier. -/
def route? (b : Bucket) (id : String) : Option PlacedOperation := b.routes.lookup id

/-- Places an operation under its identifier, in the place of the one that is there. -/
def place (b : Bucket) (p : PlacedOperation) : Bucket :=
  let id := p.operation.operationId
  if b.routes.any (·.1 == id) then
    { b with routes := b.routes.map fun (k, old) => if k = id then (k, p) else (k, old) }
  else { b with routes := b.routes ++ [(id, p)] }

end Bucket

/-- The state of a classification: the classes, the warnings, and the entities. -/
structure Classification where
  buckets : List Bucket := []
  warnings : List String := []
  build : Build := {}

/-- A classification that may fail and keeps what it has done. -/
abbrev Classifying := ExceptT Fault (StateM Classification)

namespace Classification

/-- A walk inside a classification. -/
def building {α : Type} (m : Building α) : Classifying α := fun s =>
  let (result, build) := m.run s.build
  (result, { s with build })

/-- The classes of a kind. -/
def ofKind (c : Classification) (kind : ClassKind) : List Bucket :=
  c.buckets.filter (·.kind = kind)

/-- The class of a kind and a name. -/
def bucket? (c : Classification) (kind : ClassKind) (name : String) : Option Bucket :=
  c.buckets.find? fun b => b.kind = kind && b.name = name

/-- Adds a class if it is not there; a resource is registered as an entity. -/
def addBucket (kind : ClassKind) (name : String) : Classifying Unit := do
  unless ((← get).bucket? kind name).isSome do
    modify fun c => { c with buckets := c.buckets ++ [{ kind, name }] }
    if kind = .resource then building (Building.register name)

/-- Changes the class of a kind and a name. -/
def modifyBucket (kind : ClassKind) (name : String) (f : Bucket → Bucket) :
    Classifying Unit :=
  modify fun c => { c with
    buckets := c.buckets.map fun b => if b.kind = kind && b.name = name then f b else b }

/-- The warning of an operation that takes the place of another one. -/
def replacement (kind : ClassKind) (name : String) (o : Operation) : String :=
  "operationId '" ++ o.operationId ++ "' is used twice on " ++ kind.key ++ " '" ++ name ++
    "'; " ++ o.label ++ " replaces the earlier operation"

/-- Adds warnings. -/
def warn (messages : List String) : Classifying Unit :=
  modify fun c => { c with warnings := c.warnings ++ messages }

/-- Whether a class holds another operation under the identifier of an operation. -/
def isTaken (c : Classification) (kind : ClassKind) (name : String) (o : Operation) : Bool :=
  ((c.bucket? kind name).bind (·.route? o.operationId)).any (·.operation.origin != o.origin)

/-- Places an operation on a class. -/
def addRoute (strict : Bool) (kind : ClassKind) (name : String) (p : PlacedOperation) :
    Classifying Unit := do
  if (← get).isTaken kind name p.operation then
    if strict then throw (.of (.duplicateOperation p.operation.operationId name))
    let message := replacement kind name p.operation
    building (Building.note .warning "compiler.classifier" message)
    warn [message]
  modifyBucket kind name (·.place p)

/-- Places an operation on all classes that its tags name. -/
def addOperation (doc : Document) (strict : Bool) (position : Nat) (o : Operation) :
    Classifying Unit := do
  let targets := Tag.targets o.tags
  let responses ← building (o.analyze doc)
  warn responses.unsupported
  if targets.isEmpty then
    building (Building.note .debug "compiler.classifier"
      (o.label ++ " has no Manager/Resource tag; not generated"))
  let firstResource := (targets.find? (·.1 = .resource)).map (·.2)
  for (kind, name) in targets do
    addBucket kind name
    addRoute strict kind name ⟨position, o, responses⟩
    if kind = .manager then
      for resource in firstResource do
        modifyBucket kind name (·.addUse resource)
    for type in responses.referencedTypes do
      modifyBucket kind name (·.addUse type)

/-- Places all operations; a failure names the operation it arose with. -/
def addOperations (doc : Document) (strict : Bool) (operations : List Operation) :
    Classifying Unit := do
  for (o, position) in operations.zipIdx do
    tryCatch (addOperation doc strict position o) fun fault => throw (fault.during o.label)

/-- Classifies the operations of a description. -/
def ofOperations (doc : Document) (strict : Bool) (operations : List Operation) :
    Except Fault Unit × Classification :=
  (addOperations doc strict operations).run {}

end Classification

end OpenApiClient
