import OpenApiClient.Proofs.Making

/-!
# Every entity has been reached

Pointers that are called reach the entities that they lead to, and from every schema that is
reached the pointers that its parts declare are reached in turn.  Making entities goes nowhere
else: whatever is registered has been reached, and every property of an entity is declared by a
schema that was reached under the name of the entity.
-/

namespace OpenApiClient

open Walk

variable {doc : Document} {called : List Value}

/-- A pointer is reached from the pointers that are called. -/
inductive Reached (doc : Document) (called : List Value) : Value → Prop
  | called {p : Value} (h : p ∈ called) : Reached doc called p
  | declared {p q node schema : Value} {name : String} {key : Scalar} {required : Bool}
      (hp : Reached doc called p) (he : doc.entity? p = some (name, node))
      (hd : Schema.Declares doc node key schema required) (hr : Schema.Refers doc schema q) :
      Reached doc called q

/-- A schema is reached under the name of an entity. -/
def Visited (doc : Document) (called : List Value) (name : String) (schema : Value) : Prop :=
  ∃ p, Reached doc called p ∧ doc.entity? p = some (name, schema)

/-- A part of a schema declares the property. -/
def Schema.Makes (doc : Document) (node : Value) (p : Property) : Prop :=
  ∃ key schema required, Declares doc node key schema required ∧
    (Contribution.property key schema required).property? doc = some p

/-- What a contribution refers to is visited if its schema is. -/
theorem Visited.of_pointer? {name t : String} {schema p w : Value} {c : Schema.Contribution}
    (hv : Visited doc called name schema) (hc : c ∈ Schema.closure doc schema)
    (hp : c.pointer? doc = some p) (ht : doc.entity? p = some (t, w)) :
    Visited doc called t w := by
  obtain ⟨p₀, hreached, he⟩ := hv
  cases c with
  | failure f => cases hp
  | cycle q => cases hp
  | property key sub required =>
      have hd := Schema.declares_of_mem_contributions hc
      have hr := Schema.Contribution.pointer?_property.1 hp
      exact ⟨p, hreached.declared he hd hr, ht⟩

theorem Schema.makes_of_property? {schema : Value} {q : Property} {c : Contribution}
    (hc : c ∈ closure doc schema) (hq : c.property? doc = some q) : Makes doc schema q := by
  cases c with
  | failure f => cases hq
  | cycle p => cases hq
  | property key sub required =>
      exact ⟨key, sub, required, declares_of_mem_contributions hc, hq⟩

/-- Every entity has been reached, and each of its properties is declared where it was. -/
def Registry.Reachable (doc : Document) (called : List Value) (r : Registry) : Prop :=
  ∀ e ∈ r.entities, (∃ v, Visited doc called e.name v) ∧
    ∀ q ∈ e.properties, ∃ v, Visited doc called e.name v ∧ Schema.Makes doc v q

namespace Registry.Reachable

variable {r : Registry} {name : String} {schema : Value}

theorem empty : Reachable doc called {} := by
  intro e he
  cases he

theorem register (hr : Reachable doc called r) (hv : Visited doc called name schema) :
    Reachable doc called (r.register name) := by
  unfold Registry.register
  split
  · exact hr
  · intro e he
    rcases List.mem_append.1 he with he | he
    · exact hr e he
    · obtain rfl := List.mem_singleton.1 he
      exact ⟨⟨schema, hv⟩, nofun⟩

theorem addUse (hr : Reachable doc called r) (target : String) :
    Reachable doc called (r.modify name (·.addUse target)) := by
  intro e' he'
  obtain ⟨e, he, rfl⟩ := List.mem_map.1 he'
  split
  · rw [Entity.name_addUse, Entity.properties_addUse]
    exact hr e he
  · exact hr e he

theorem addProperty (hr : Reachable doc called r) (hv : Visited doc called name schema)
    {q : Property} (hq : Schema.Makes doc schema q) :
    Reachable doc called (r.modify name (·.addProperty q)) := by
  intro e' he'
  obtain ⟨e, he, rfl⟩ := List.mem_map.1 he'
  obtain ⟨hname, hprops⟩ := hr e he
  split
  · next hn =>
      rw [Entity.name_addProperty, Entity.properties_addProperty]
      refine ⟨hname, fun p hp => ?_⟩
      rcases Property.mem_addTo hp with hp | rfl
      · exact hprops p hp
      · exact ⟨schema, hn ▸ hv, hq⟩
  · exact hr e he

/-- Extending an entity reaches nothing new if what it refers to does not. -/
theorem extend {room ancestry : List String} {c : Schema.Contribution} {b b' : Build}
    (hv : Visited doc called name schema) (hc : c ∈ Schema.closure doc schema)
    (hmake : ∀ t w b b', Visited doc called t w → Reachable doc called b.registry →
      Yields (Building.materialize doc (room.erase name) (ancestry ++ [name]) t w) b () b' →
      Reachable doc called b'.registry)
    (hr : Reachable doc called b.registry)
    (h : Yields (Building.extend (Building.follow doc room ancestry name) doc name c) b () b') :
    Reachable doc called b'.registry := by
  obtain ⟨-, b₁, hplain, hrefers, -, hreg⟩ := Building.yields_extend
    (fun p b t b' h => (Building.yields_follow h).imp fun _ => And.left) h
  have h₁ : Reachable doc called b₁.registry := by
    cases hp : c.pointer? doc with
    | none => rwa [(hplain hp).1]
    | some p =>
        obtain ⟨t, b₀, hfollow, hb₁, -⟩ := hrefers p hp
        obtain ⟨w, ht, hm⟩ := Building.yields_follow hfollow
        rw [hb₁]
        exact (hmake t w b b₀ (hv.of_pointer? hc hp ht) hr hm).addUse t
  rw [hreg]
  cases hq : c.property? doc with
  | none => exact h₁
  | some q => exact h₁.addProperty hv (Schema.makes_of_property? hc hq)

theorem materialize (room ancestry : List String) (name : String) (schema : Value) :
    ∀ b b', Visited doc called name schema → Reachable doc called b.registry →
      Yields (Building.materialize doc room ancestry name schema) b () b' →
      Reachable doc called b'.registry := by
  induction room, ancestry, name, schema using Building.room_induction with
  | step room ancestry name schema ih =>
      intro b b' hv hr h
      obtain ⟨-, hsame⟩ | ⟨hname, b₁, hb₁, -, hmade⟩ := Building.yields_materialize h
      · rwa [hsame.1]
      have h₁ : Reachable doc called b₁.registry := hb₁ ▸ hr.register hv
      obtain ⟨-, rfl⟩ | ⟨-, b₂, ⟨us, hwalk⟩, rfl⟩ := hmade
      · exact h₁
      · refine hwalk.invariant (I := fun _ b => Reachable doc called b.registry) h₁ ?_
        intro done c s u s' hdone hs hstep
        have hc : c ∈ Schema.closure doc schema := hdone.subset (by simp)
        exact hs.extend hv hc (ih hname) hstep

end Registry.Reachable

theorem Registry.reachable_of_called {names : List String} {b : Build}
    (h : Yields (called.mapM fun p => Building.ofPointer doc p []) {} names b) :
    Reachable doc called b.registry := by
  refine (yields_mapM.1 h).invariant (I := fun _ b => Reachable doc called b.registry)
    Reachable.empty ?_
  intro done p s name s' hdone hs hstep
  obtain ⟨v, hv, hm⟩ := Building.yields_ofPointer hstep
  have hp : p ∈ called := hdone.subset (by simp)
  exact Reachable.materialize _ _ _ _ _ _ ⟨p, .called hp, hv⟩ hs hm

end OpenApiClient
