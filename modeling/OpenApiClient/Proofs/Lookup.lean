import OpenApiClient.Proofs.Growth
import OpenApiClient.Proofs.Table

/-!
# What is found in a registry

How the look-up of an entity and of its properties changes when a name is registered and when
an entity is extended.  Several properties of one name make one property, the first;
`firstOfEach` drops the others.
-/

namespace OpenApiClient

namespace Property

/-- Adds a property to a list unless there is one of its name. -/
def addTo (ps : List Property) (p : Property) : List Property :=
  if ps.any (·.name == p.name) then ps else ps ++ [p]

/-- The first property of every name. -/
def firstOfEach (ps : List Property) : List Property := ps.foldl addTo []

theorem mem_addTo {ps : List Property} {p q : Property} :
    q ∈ addTo ps p → q ∈ ps ∨ q = p := by
  unfold addTo
  split
  · exact .inl
  · simp

theorem firstOfEach_append_singleton (ps : List Property) (p : Property) :
    firstOfEach (ps ++ [p]) = addTo (firstOfEach ps) p := by
  rw [firstOfEach, List.foldl_append]
  rfl

theorem firstOfEach_mono {ps qs : List Property} (h : ps <+: qs) :
    firstOfEach ps <+: firstOfEach qs :=
  firstsBy_mono Property.name h

/-- A name that is declared has been taken by the first property that declares it. -/
theorem any_firstOfEach {ps : List Property} {p : Property} (h : p ∈ ps) :
    (firstOfEach ps).any (·.name == p.name) = true :=
  (any_firstsBy Property.name ps p.name).trans
    (List.any_eq_true.2 ⟨p, h, beq_self_eq_true p.name⟩)

end Property

theorem Entity.properties_addProperty (e : Entity) (p : Property) :
    (e.addProperty p).properties = Property.addTo e.properties p := by
  have h : e.hasProperty p.name = e.properties.any (·.name == p.name) := by
    rw [Bool.eq_iff_iff]
    simp [hasProperty, property?]
  unfold addProperty Property.addTo
  rw [h]
  split <;> rfl

namespace Registry

theorem get?_modify (r : Registry) (name other : String) {f : Entity → Entity}
    (hf : ∀ e, (f e).name = e.name) :
    (r.modify name f).get? other =
      if other = name then (r.get? other).map f else r.get? other := by
  unfold get? modify
  rw [List.find?_map]
  have hp : ((fun e : Entity => e.name == other) ∘ fun e => if e.name = name then f e else e) =
      fun e => e.name == other := by
    funext e
    by_cases hn : e.name = name <;> simp [hn, hf]
  rw [hp]
  cases h : r.entities.find? (·.name == other) with
  | none => simp
  | some e =>
      have hn : e.name = other := by simpa using List.find?_some h
      simp only [Option.map_some, hn]
      split <;> rfl

theorem get?_register (r : Registry) (name other : String) :
    (r.register name).get? other =
      if other = name ∧ r.contains name = false then some { name := name } else r.get? other := by
  unfold register
  split
  · next h => simp [h]
  · next h =>
      have hr : r.contains name = false := by simpa using h
      unfold get?
      rw [List.find?_append, List.find?_singleton]
      by_cases hn : other = name
      · subst hn
        have hnone : r.entities.find? (·.name == other) = none := by
          simpa [contains, get?] using hr
        simp [hr, hnone]
      · simp [hn, Ne.symm hn]

/-- The properties of the entity of a name, none if there is no entity. -/
def propertiesOf (r : Registry) (name : String) : List Property :=
  ((r.get? name).map (·.properties)).getD []

theorem propertiesOf_register (r : Registry) (name other : String) :
    (r.register name).propertiesOf other = r.propertiesOf other := by
  unfold propertiesOf
  rw [get?_register]
  split
  · next h =>
      obtain ⟨rfl, h⟩ := h
      have : r.get? other = none := by simpa [contains] using h
      simp [this]
  · rfl

theorem propertiesOf_addUse (r : Registry) (name other target : String) :
    (r.modify name (·.addUse target)).propertiesOf other = r.propertiesOf other := by
  unfold propertiesOf
  rw [get?_modify r name other fun e => e.name_addUse target]
  split
  · cases r.get? other <;> simp
  · rfl

theorem propertiesOf_addProperty (r : Registry) (name other : String) (p : Property) :
    (r.modify name (·.addProperty p)).propertiesOf other =
      if other = name ∧ r.contains name = true then Property.addTo (r.propertiesOf other) p
      else r.propertiesOf other := by
  unfold propertiesOf
  rw [get?_modify r name other fun e => e.name_addProperty p]
  by_cases hn : other = name
  · subst hn
    cases h : r.get? other with
    | none => simp [contains, h]
    | some e => simp [contains, h, Entity.properties_addProperty]
  · simp [hn]

theorem contains_register (r : Registry) (name other : String) :
    (r.register name).contains other = (other == name || r.contains other) := by
  unfold contains
  rw [get?_register]
  by_cases hn : other = name
  · subst hn
    cases h : r.contains other <;> simp_all [contains]
  · simp [hn]

theorem Grows.propertiesOf {r r' : Registry} (h : r.Grows r') (name : String) :
    r.propertiesOf name <+: r'.propertiesOf name := by
  unfold Registry.propertiesOf
  cases he : r.get? name with
  | none => exact List.nil_prefix
  | some e =>
      obtain ⟨e', he', g⟩ := h.get? he
      rw [he']
      exact g.properties

end Registry

end OpenApiClient
