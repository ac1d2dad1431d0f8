import OpenApiClient.Entity.Registry
import OpenApiClient.Schema.Closure
import OpenApiClient.Text.Letter

/-!
# Making entities of schemas

An entity is extended by everything that a schema contributes to it.  Properties that refer
to other entities make those first.  Schemas may refer to each other in circles, so a name is
expanded at most twice on a chain of entities that are being made: the *room* of a chain
lists the names that may still be expanded, each as often as it may.

A schema that has been used up for an entity is not walked again.  What a walk has done stays
done when it fails halfway.
-/

namespace OpenApiClient

/-- The state of a walk: the registry, the schemas that have been used up, each with the name
of its entity, and what was noted. -/
structure Build where
  registry : Registry := {}
  completed : List (String × Value) := []
  log : Array Record := #[]

/-- A walk that may fail and keeps what it has done. -/
abbrev Building := ExceptT Fault (StateM Build)

namespace Building

/-- Notes a record. -/
def note (level : Level) (origin message : String) : Building Unit :=
  modify fun b => { b with log := b.log.push ⟨level, origin, message⟩ }

/-- The registry as it stands. -/
def registry : Building Registry := return (← get).registry

/-- Changes the registry. -/
def modifyRegistry (f : Registry → Registry) : Building Unit :=
  modify fun b => { b with registry := f b.registry }

/-- Registers a name. -/
def register (name : String) : Building Unit := do
  unless (← registry).contains name do
    modifyRegistry (·.register name)
    note .debug "compiler.registry" ("Registered resource entity " ++ name)

/-- How often a name may stand on a chain of entities that are being made. -/
def expansions : Nat := 2

/-- The name of the entity that a pointer leads to, if it can be followed. -/
def entityName? (pointer : String) : Option String :=
  (Pointer.segments? pointer).map fun segments =>
    Text.capitalizeFirst (Pointer.lastSegment segments)

/-- The names that a walk from a schema may come to, each as often as a chain may hold it. -/
def roomFor (doc : Document) (name : String) (schema : Value) : List String :=
  (name :: (doc.reach schema).filterMap entityName?).eraseDups.flatMap
    (List.replicate expansions)

/-- Extends the entity of a name by a schema, by way of `refer`, which makes the entity that a
pointer leads to and gives its name. -/
def extend (refer : Value → Building String) (doc : Document) (entity : String) :
    Schema.Contribution → Building Unit
  | .failure fault => throw fault
  | .cycle p => note .debug "compiler.registry"
      ("allOf cycle through " ++ p ++ " stops in " ++ entity)
  | .property name schema required => do
    if !schema.isMap then return
    let found ← match ← Schema.Typing.ofSchema doc schema with
      | .unsupported => do
        note .debug "compiler.registry"
          ("Skipping property " ++ entity ++ "." ++ name.text ++ " with unsupported shape")
        return
      | .plain type format description items =>
        pure (type, format, description, items)
      | .entity pointer description => do
        let target ← refer pointer
        modifyRegistry (·.modify entity (·.addUse target))
        pure (.str target, .null, description, .null)
      | .entities pointer description => do
        let target ← refer pointer
        modifyRegistry (·.modify entity (·.addUse target))
        pure (.str "array", .null, description, .str target)
    let (type, format, description, items) := found
    let property ← Property.ofValues required (.scalar name) type format description items
    modifyRegistry (·.modify entity (·.addProperty property))

/-- Makes or extends the entity of a name by a schema, below a chain of entities that are being
made. -/
def materialize (doc : Document) (room ancestry : List String) (name : String)
    (schema : Value) : Building Unit := do
  if _h : name ∈ room then
    register name
    if (← get).completed.contains (name, schema) then return
    for c in Schema.closure doc schema do
      extend (fun pointer => do
        let (segment, target) ← doc.resolve pointer
        let other := Text.capitalizeFirst segment
        materialize doc (room.erase name) (ancestry ++ [name]) other target
        return other) doc name c
    modify fun b => { b with completed := (name, schema) :: b.completed }
  else
    note .debug "compiler.registry"
      ("Recursion guard stops " ++ name ++ " (chain: " ++ Text.join " > " ancestry ++ ")")
termination_by room.length
decreasing_by
  rw [List.length_erase_of_mem _h]
  have := List.length_pos_of_mem _h
  omega

/-- Makes or extends the entity of a name by a schema, below a chain of names. -/
def ofSchema (doc : Document) (name : String) (schema : Value) (ancestry : List String) :
    Building Unit :=
  materialize doc (ancestry.foldl List.erase (roomFor doc name schema)) ancestry name schema

/-- Makes the entity that a pointer leads to, and gives its name. -/
def ofPointer (doc : Document) (pointer : Value) (ancestry : List String) :
    Building String := do
  let (segment, target) ← doc.resolve pointer
  let name := Text.capitalizeFirst segment
  ofSchema doc name target ancestry
  return name

end Building

end OpenApiClient
