import OpenApiClient.Fields
import OpenApiClient.Value.Text

/-!
# Entities

An entity becomes a class of its own: it has a name, properties, and other entities that it
uses.  Properties and uses stand in the order in which they were found.  A property that is
there is never replaced, and no entity uses itself.
-/

namespace OpenApiClient

/-- A property of an entity.  Its type is a type of the description or the name of an entity;
a list says in `items` what it is a list of. -/
structure Property where
  name : String
  required : Bool := false
  type : String := "mixed"
  format : Option String := none
  description : Option String := none
  items : Option String := none
  deriving DecidableEq, Repr

/-- A property made of values of a description. -/
def Property.ofValues (required : Bool) (name type format description items : Value) :
    Except Fault Property :=
  Fields.fill .property
    [Fields.text "name" name, Fields.text "type" type, Fields.optionalText "format" format,
      Fields.optionalText "description" description, Fields.optionalText "items" items]
    { name := Fields.textOf name, required, type := Fields.textOf type
      format := Fields.textOf? format, description := Fields.textOf? description
      items := Fields.textOf? items }

/-- An entity. -/
structure Entity where
  name : String
  properties : List Property := []
  uses : List String := []
  deriving DecidableEq, Repr

namespace Entity

/-- The property of a name. -/
def property? (e : Entity) (name : String) : Option Property :=
  e.properties.find? (·.name == name)

/-- Whether there is a property of that name. -/
def hasProperty (e : Entity) (name : String) : Bool := (e.property? name).isSome

/-- Adds a property unless there is one of its name. -/
def addProperty (e : Entity) (p : Property) : Entity :=
  if e.hasProperty p.name then e else { e with properties := e.properties ++ [p] }

/-- Notes that the entity uses another one. -/
def addUse (e : Entity) (name : String) : Entity :=
  if name = e.name || e.uses.contains name then e else { e with uses := e.uses ++ [name] }

/-- How an entity is shown in messages. -/
def shown (e : Entity) : String :=
  "ResourceEntity(" ++ Text.quoted e.name ++ ", properties=[" ++
    Text.join ", " (e.properties.map fun p => Text.quoted p.name) ++ "])"

@[simp] theorem name_addProperty (e : Entity) (p : Property) : (e.addProperty p).name = e.name := by
  unfold addProperty; split <;> rfl

@[simp] theorem uses_addProperty (e : Entity) (p : Property) : (e.addProperty p).uses = e.uses := by
  unfold addProperty; split <;> rfl

@[simp] theorem name_addUse (e : Entity) (name : String) : (e.addUse name).name = e.name := by
  unfold addUse; split <;> rfl

@[simp] theorem properties_addUse (e : Entity) (name : String) :
    (e.addUse name).properties = e.properties := by
  unfold addUse; split <;> rfl

/-- What is there stays in front of what is added. -/
theorem properties_prefix_addProperty (e : Entity) (p : Property) :
    e.properties <+: (e.addProperty p).properties := by
  unfold addProperty; split
  · exact List.prefix_refl _
  · exact List.prefix_append _ _

/-- Uses that are there stay in front of the one that is noted. -/
theorem uses_prefix_addUse (e : Entity) (name : String) : e.uses <+: (e.addUse name).uses := by
  unfold addUse; split
  · exact List.prefix_refl _
  · exact List.prefix_append _ _

end Entity

end OpenApiClient
