import OpenApiClient.Proofs.Composition
import OpenApiClient.Proofs.Lookup

/-!
# What a declaration says

A declaration of a property is read on its own here, apart from any registry: which property it
makes, if its shape is supported, and which pointer to another entity it holds.
-/

namespace OpenApiClient

/-- The entity that a pointer leads to: its name and the node that it is made of. -/
def Document.entity? (doc : Document) (pointer : Value) : Option (String × Value) :=
  (doc.resolve pointer).toOption.map fun (segment, node) => (Text.capitalizeFirst segment, node)

theorem Document.entity?_eq_some {doc : Document} {pointer node : Value} {name : String} :
    doc.entity? pointer = some (name, node) ↔
      ∃ segment, doc.resolve pointer = .ok (segment, node) ∧
        Text.capitalizeFirst segment = name := by
  unfold entity?
  cases doc.resolve pointer with
  | error e => simp [Except.toOption]
  | ok found =>
      obtain ⟨segment, target⟩ := found
      constructor
      · intro h
        obtain ⟨rfl, rfl⟩ := Prod.mk.inj (Option.some.inj h)
        exact ⟨segment, rfl, rfl⟩
      · rintro ⟨segment', h, rfl⟩
        obtain ⟨rfl, rfl⟩ := Prod.mk.inj (Except.ok.inj h)
        rfl

/-- A pointer that can be followed is a text, and the text tells the name of the entity. -/
theorem Document.entityName?_of_resolve {doc : Document} {pointer node : Value}
    {segment : String} (h : doc.resolve pointer = .ok (segment, node)) :
    ∃ s, pointer = .str s ∧
      Building.entityName? s = some (Text.capitalizeFirst segment) := by
  unfold resolve at h
  split at h
  · next s =>
      refine ⟨s, rfl, ?_⟩
      unfold Building.entityName?
      cases hs : Pointer.segments? s with
      | none => simp [hs] at h
      | some segments =>
          simp only [hs] at h
          split at h
          · obtain ⟨target, -, heq⟩ := Walk.map_eq_ok.1 h
            obtain ⟨rfl, -⟩ := Prod.mk.inj heq
            rfl
          · cases h
  · cases h

/-- Only the text itself is the same value as a text. -/
theorem Value.eq_of_same_str {v : Value} {s : String} (h : v.same (.str s) = true) :
    v = .str s := by
  cases v with
  | scalar k =>
      obtain rfl := Scalar.eq_of_same_str (by simpa [same] using h)
      rfl
  | _ => simp [same] at h

namespace Schema

/-- A schema refers to an entity, as the type of a property or as the type of its items. -/
inductive Refers (doc : Document) (schema pointer : Value) : Prop
  | property (hr : schema.reference? = some pointer)
      (hs : scalarTarget? doc pointer = .ok none)
  | items (hr : schema.reference? = none)
      (ht : typeName? (schema.get "type") = some (.str "array"))
      (hi : (schema.get "items").reference? = some pointer)
      (hs : scalarTarget? doc pointer = .ok none)

namespace Typing

/-- The pointer to the entity that a typing names. -/
def pointer? : Typing → Option Value
  | .entity pointer _ => some pointer
  | .entities pointer _ => some pointer
  | _ => none

/-- The property that a typing makes. -/
def property? (doc : Document) (name : Scalar) (required : Bool) : Typing → Option Property
  | .unsupported => none
  | .plain type format description items =>
    (Property.ofValues required (.scalar name) type format description items).toOption
  | .entity pointer description =>
    (doc.entity? pointer).bind fun (target, _) =>
      (Property.ofValues required (.scalar name) (.str target) .null description .null).toOption
  | .entities pointer description =>
    (doc.entity? pointer).bind fun (target, _) =>
      (Property.ofValues required (.scalar name) (.str "array") .null description
        (.str target)).toOption

end Typing

namespace Contribution

/-- How a contribution types the property that it declares. -/
def typing? (doc : Document) : Contribution → Option Typing
  | .property _ schema _ => if schema.isMap then (Typing.ofSchema doc schema).toOption else none
  | _ => none

/-- The pointer to the entity that a contribution refers to. -/
def pointer? (doc : Document) (c : Contribution) : Option Value :=
  (c.typing? doc).bind Typing.pointer?

/-- The property that a contribution makes. -/
def property? (doc : Document) : Contribution → Option Property
  | .property name schema required =>
    ((Contribution.property name schema required).typing? doc).bind
      (Typing.property? doc name required)
  | _ => none

end Contribution

/-- The properties that contributions make, the first one of every name. -/
def propertiesOf (doc : Document) (cs : List Contribution) : List Property :=
  Property.firstOfEach (cs.filterMap (·.property? doc))

theorem propertiesOf_mono (doc : Document) {cs ds : List Contribution} (h : cs <+: ds) :
    propertiesOf doc cs <+: propertiesOf doc ds :=
  Property.firstOfEach_mono (h.filterMap _)

/-- The next contribution adds its property, if it makes one. -/
theorem propertiesOf_append_singleton (doc : Document) (cs : List Contribution)
    (c : Contribution) :
    propertiesOf doc (cs ++ [c]) =
      (c.property? doc).elim (propertiesOf doc cs) (Property.addTo (propertiesOf doc cs)) := by
  unfold propertiesOf
  rw [List.filterMap_append]
  cases h : c.property? doc with
  | none => simp [h]
  | some p =>
      rw [List.filterMap_cons_some h, List.filterMap_nil]
      exact Property.firstOfEach_append_singleton _ p

/-- A reference that leads to no scalar is typed by the entity that it leads to. -/
theorem Typing.ofSchema_of_reference {doc : Document} {schema pointer : Value}
    (hr : schema.reference? = some pointer) (hs : scalarTarget? doc pointer = .ok none) :
    ofSchema doc schema = .ok (.entity pointer (schema.get "description")) := by
  unfold ofSchema
  rw [hr]
  exact Walk.bind_eq_ok.2 ⟨none, hs, rfl⟩

/-- A list whose items refer to no scalar is typed by the entity that they refer to. -/
theorem Typing.ofSchema_of_items {doc : Document} {schema pointer : Value}
    (hr : schema.reference? = none) (ht : typeName? (schema.get "type") = some (.str "array"))
    (hi : (schema.get "items").reference? = some pointer)
    (hs : scalarTarget? doc pointer = .ok none) :
    ofSchema doc schema = .ok (.entities pointer (schema.get "description")) := by
  unfold ofSchema
  rw [hr]
  dsimp only
  rw [ht]
  change ofItems doc (schema.get "items") (schema.get "description") = _
  unfold ofItems
  rw [hi]
  exact Walk.bind_eq_ok.2 ⟨none, hs, rfl⟩

/-- Lists point at an entity by the reference of their items. -/
theorem Typing.pointer?_ofItems {doc : Document} {items description pointer : Value} {t : Typing}
    (ht : ofItems doc items description = .ok t) (hp : t.pointer? = some pointer) :
    items.reference? = some pointer ∧ scalarTarget? doc pointer = .ok none := by
  unfold ofItems at ht
  split at ht
  · next q hr =>
      obtain ⟨target, hs, ht⟩ := Walk.bind_eq_ok.1 ht
      cases target with
      | some node => cases ht; simp [pointer?] at hp
      | none =>
          cases ht
          obtain rfl := Option.some.inj hp
          exact ⟨hr, hs⟩
  · split at ht <;> (cases ht; simp [pointer?] at hp)

/-- A typing points at an entity exactly if its schema refers to it. -/
theorem Typing.pointer?_ofSchema {doc : Document} {schema pointer : Value} :
    (∃ t, ofSchema doc schema = .ok t ∧ t.pointer? = some pointer) ↔
      Refers doc schema pointer := by
  constructor
  · rintro ⟨t, ht, hp⟩
    unfold ofSchema at ht
    split at ht
    · next q hr =>
        obtain ⟨target, hs, ht⟩ := Walk.bind_eq_ok.1 ht
        cases target with
        | some node => cases ht; simp [pointer?] at hp
        | none =>
            cases ht
            obtain rfl := Option.some.inj hp
            exact .property hr hs
    · next hr =>
        split at ht
        · cases ht; simp [pointer?] at hp
        · next type htype =>
            split at ht
            · next hsame =>
                obtain rfl := Value.eq_of_same_str hsame
                obtain ⟨hi, hs⟩ := pointer?_ofItems ht hp
                exact .items hr htype hi hs
            · cases ht; simp [pointer?] at hp
  · rintro (⟨hr, hs⟩ | ⟨hr, ht, hi, hs⟩)
    · exact ⟨_, ofSchema_of_reference hr hs, rfl⟩
    · exact ⟨_, ofSchema_of_items hr ht hi hs, rfl⟩

theorem Contribution.ofSchema_of_typing? {doc : Document} {name : Scalar} {schema : Value}
    {required : Bool} {t : Typing}
    (h : (Contribution.property name schema required).typing? doc = some t) :
    Typing.ofSchema doc schema = .ok t := by
  unfold typing? at h
  dsimp only at h
  split at h
  · exact Walk.toOption_eq_some.1 h
  · cases h

/-- The pointers of contributions are those by which their schemas refer to entities. -/
theorem Contribution.pointer?_property {doc : Document} {name : Scalar} {schema pointer : Value}
    {required : Bool} :
    (Contribution.property name schema required).pointer? doc = some pointer ↔
      Refers doc schema pointer := by
  rw [← Typing.pointer?_ofSchema]
  constructor
  · intro h
    obtain ⟨t, ht, hp⟩ := Option.bind_eq_some_iff.1 h
    exact ⟨t, ofSchema_of_typing? ht, hp⟩
  · rintro ⟨t, ht, hp⟩
    have hm : schema.isMap = true := by
      cases schema with
      | map => rfl
      | _ => cases ht; simp [Typing.pointer?] at hp
    simp [pointer?, typing?, hm, ht, hp, Except.toOption]

/-- The property of a declaration that refers to an entity has the name of that entity for its
type. -/
theorem Contribution.entity?_of_reference {doc : Document} {name : Scalar} {schema pointer : Value}
    {required : Bool} {p : Property} (hr : schema.reference? = some pointer)
    (hs : scalarTarget? doc pointer = .ok none)
    (hp : (Contribution.property name schema required).property? doc = some p) :
    ∃ node, doc.entity? pointer = some (p.type, node) := by
  obtain ⟨typing, htyping, hp⟩ := Option.bind_eq_some_iff.1 hp
  have hentity := Typing.ofSchema_of_reference hr hs
  obtain rfl := Except.ok.inj (hentity.symm.trans (ofSchema_of_typing? htyping))
  obtain ⟨⟨t, node⟩, ht, hp⟩ := Option.bind_eq_some_iff.1 hp
  obtain ⟨-, rfl⟩ := (Fields.fill_eq_ok_iff _ _ _ _).1 (Walk.toOption_eq_some.1 hp)
  exact ⟨node, ht⟩

/-- The property of a declaration of a list whose items refer to an entity has the name of that
entity for its items. -/
theorem Contribution.entity?_of_items {doc : Document} {name : Scalar} {schema pointer : Value}
    {required : Bool} {p : Property} (hr : schema.reference? = none)
    (ht : typeName? (schema.get "type") = some (.str "array"))
    (hi : (schema.get "items").reference? = some pointer)
    (hs : scalarTarget? doc pointer = .ok none)
    (hp : (Contribution.property name schema required).property? doc = some p) :
    ∃ target node, p.items = some target ∧ doc.entity? pointer = some (target, node) := by
  obtain ⟨typing, htyping, hp⟩ := Option.bind_eq_some_iff.1 hp
  have hentities := Typing.ofSchema_of_items hr ht hi hs
  obtain rfl := Except.ok.inj (hentities.symm.trans (ofSchema_of_typing? htyping))
  obtain ⟨⟨t, node⟩, ht, hp⟩ := Option.bind_eq_some_iff.1 hp
  obtain ⟨-, rfl⟩ := (Fields.fill_eq_ok_iff _ _ _ _).1 (Walk.toOption_eq_some.1 hp)
  exact ⟨t, node, rfl, ht⟩

/-- A schema refers by a pointer that it holds. -/
theorem mem_pointers_of_refers {doc : Document} {schema : Value} {p : String}
    (h : Refers doc schema (.str p)) : p ∈ schema.pointers := by
  cases h with
  | property hr hs => exact Value.mem_pointers_of_reference? hr
  | items hr ht hi hs =>
      exact Value.pointers_get_subset schema "items" (Value.mem_pointers_of_reference? hi)

end Schema

end OpenApiClient
