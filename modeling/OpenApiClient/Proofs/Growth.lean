import OpenApiClient.Proofs.Walk
import Mathlib.Data.List.Infix
import Mathlib.Logic.Relation

/-!
# The registry only grows

An entity grows by properties and uses at the end of its lists; a registry grows by entities at
the end of its own, while those it has keep their places and grow.  Both are preorders, and so
is the growth of a state.

Whatever a walk does to its state it does by single writes: it registers a name, notes a use or
a property, marks a schema as used up, or notes a record.  A preorder that holds across every
single write is therefore kept by every walk that makes entities, whether it succeeds or fails
halfway.  Growth is one of these, so what has been looked up in a registry is found again in
every later one; the finest one says that there are nothing but writes.
-/

namespace OpenApiClient

/-- What is looked up in a list is looked up in every list that it begins. -/
theorem find?_eq_of_begins {α : Type} {p : α → Bool} {l l' : List α} {a : α}
    (h : l <+: l') (ha : l.find? p = some a) : l'.find? p = some a := by
  obtain ⟨rest, rfl⟩ := h
  rw [List.find?_append, ha]
  rfl

/-- An entity has grown into another one of its name. -/
structure Entity.Grows (e e' : Entity) : Prop where
  name_eq : e'.name = e.name
  properties : e.properties <+: e'.properties
  uses : e.uses <+: e'.uses

namespace Entity

theorem Grows.refl {e : Entity} : e.Grows e :=
  ⟨rfl, List.prefix_refl _, List.prefix_refl _⟩

theorem Grows.trans {e₁ e₂ e₃ : Entity} (h : e₁.Grows e₂) (h' : e₂.Grows e₃) : e₁.Grows e₃ :=
  ⟨h'.name_eq.trans h.name_eq, h.properties.trans h'.properties, h.uses.trans h'.uses⟩

theorem grows_addProperty (e : Entity) (p : Property) : e.Grows (e.addProperty p) :=
  ⟨name_addProperty e p, properties_prefix_addProperty e p, by rw [uses_addProperty]⟩

theorem grows_addUse (e : Entity) (name : String) : e.Grows (e.addUse name) :=
  ⟨name_addUse e name, by rw [properties_addUse], uses_prefix_addUse e name⟩

/-- A property that is there stays there. -/
theorem Grows.hasProperty {e e' : Entity} (h : e.Grows e') {name : String}
    (hp : e.hasProperty name = true) : e'.hasProperty name = true := by
  obtain ⟨p, hp⟩ := Option.isSome_iff_exists.1 hp
  exact Option.isSome_iff_exists.2 ⟨p, find?_eq_of_begins h.properties hp⟩

end Entity

/-- A registry has grown into another one: every entity keeps its place and grows. -/
def Registry.Grows (r r' : Registry) : Prop :=
  ∀ (i : Nat) (e : Entity), r.entities[i]? = some e →
    ∃ e', r'.entities[i]? = some e' ∧ e.Grows e'

namespace Registry

theorem Grows.refl {r : Registry} : r.Grows r :=
  fun _ e h => ⟨e, h, Entity.Grows.refl⟩

theorem Grows.trans {r₁ r₂ r₃ : Registry} (h : r₁.Grows r₂) (h' : r₂.Grows r₃) :
    r₁.Grows r₃ := by
  intro i e he
  obtain ⟨e₂, he₂, g₂⟩ := h i e he
  obtain ⟨e₃, he₃, g₃⟩ := h' i e₂ he₂
  exact ⟨e₃, he₃, g₂.trans g₃⟩

instance : IsPreorder Registry Grows where
  refl _ := Grows.refl
  trans _ _ _ := Grows.trans

theorem grows_register (r : Registry) (name : String) : r.Grows (r.register name) := by
  intro i e he
  unfold register
  split
  · exact ⟨e, he, Entity.Grows.refl⟩
  · exact ⟨e, List.getElem?_append_left (List.getElem?_eq_some_iff.1 he).1 ▸ he,
      Entity.Grows.refl⟩

theorem grows_modify (r : Registry) (name : String) {f : Entity → Entity}
    (hf : ∀ e : Entity, e.Grows (f e)) : r.Grows (r.modify name f) := by
  intro i e he
  refine ⟨if e.name = name then f e else e, by simp [modify, he], ?_⟩
  split
  · exact hf e
  · exact Entity.Grows.refl

/-- An entity that is found is found again in every later registry, grown. -/
theorem Grows.get? {r r' : Registry} (h : r.Grows r') {name : String} {e : Entity}
    (he : r.get? name = some e) : ∃ e', r'.get? name = some e' ∧ e.Grows e' := by
  unfold Registry.get? at he ⊢
  rw [List.find?_eq_some_iff_getElem] at he
  obtain ⟨hn, i, hi, rfl, hbefore⟩ := he
  obtain ⟨e', he', g⟩ := h i r.entities[i] (List.getElem?_eq_getElem hi)
  obtain ⟨hi', rfl⟩ := List.getElem?_eq_some_iff.1 he'
  refine ⟨_, ?_, g⟩
  rw [List.find?_eq_some_iff_getElem]
  refine ⟨by simpa [g.name_eq] using hn, i, hi', rfl, fun j hj => ?_⟩
  -- An entity further in front has kept its name, so the search passes it as before.
  obtain ⟨e₁, he₁, g₁⟩ := h j _ (List.getElem?_eq_getElem (hj.trans hi))
  obtain ⟨_, rfl⟩ := List.getElem?_eq_some_iff.1 he₁
  simpa [g₁.name_eq] using hbefore j hj

theorem Grows.contains {r r' : Registry} (h : r.Grows r') {name : String}
    (hn : r.contains name = true) : r'.contains name = true := by
  obtain ⟨e, he⟩ := Option.isSome_iff_exists.1 hn
  obtain ⟨e', he', -⟩ := h.get? he
  exact Option.isSome_iff_exists.2 ⟨e', he'⟩

end Registry

/-- A state has grown into another one: its registry has, and what is used up stays used up. -/
structure Build.Grows (b b' : Build) : Prop where
  registry : b.registry.Grows b'.registry
  completed : b.completed <:+ b'.completed

instance : IsPreorder Build Build.Grows where
  refl _ := ⟨Registry.Grows.refl, List.suffix_refl _⟩
  trans _ _ _ h h' := ⟨h.registry.trans h'.registry, h.completed.trans h'.completed⟩

/-- One write to a registry. -/
inductive Registry.Write : Registry → Registry → Prop
  | register (r : Registry) (name : String) : Write r (r.register name)
  | addUse (r : Registry) (entity name : String) : Write r (r.modify entity (·.addUse name))
  | addProperty (r : Registry) (entity : String) (p : Property) :
      Write r (r.modify entity (·.addProperty p))

theorem Registry.Write.grows {r r' : Registry} (h : r.Write r') : r.Grows r' := by
  cases h with
  | register name => exact r.grows_register name
  | addUse entity name => exact r.grows_modify entity fun e => e.grows_addUse name
  | addProperty entity p => exact r.grows_modify entity fun e => e.grows_addProperty p

/-- One write to a state. -/
inductive Build.Write : Build → Build → Prop
  | note (b : Build) (record : Record) : Write b { b with log := b.log.push record }
  | registry (b : Build) {r : Registry} (h : b.registry.Write r) :
      Write b { b with registry := r }
  | useUp (b : Build) (used : String × Value) :
      Write b { b with completed := used :: b.completed }

/-- A preorder of states that holds across every single write. -/
class Build.Spans (R : Build → Build → Prop) : Prop extends IsPreorder Build R where
  of_write {b b' : Build} : b.Write b' → R b b'

instance : Build.Spans Build.Grows where
  of_write h := by
    cases h with
    | note record => exact ⟨Registry.Grows.refl, List.suffix_refl _⟩
    | registry h => exact ⟨h.grows, List.suffix_refl _⟩
    | useUp used => exact ⟨Registry.Grows.refl, List.suffix_cons _ _⟩

/-- A state is made of another one by writes. -/
def Build.Writes : Build → Build → Prop := Relation.ReflTransGen Build.Write

instance : Build.Spans Build.Writes where
  refl _ := .refl
  trans _ _ _ := .trans
  of_write := .single

/-- What holds across every write holds across all of them. -/
theorem Build.Writes.of_spans {R : Build → Build → Prop} [Build.Spans R] {b b' : Build}
    (h : b.Writes b') : R b b' :=
  Relation.reflTransGen_le_of_le (r := R) (fun _ _ => Build.Spans.of_write) b b' h

/-- An entity is extended by making the entities that a schema refers to, by noting their use
and by adding a property. -/
theorem Walk.Compositional.extend {P : (α : Type) → Building α → Prop}
    (h : Walk.Compositional P) {refer : Value → Building String} {entity : String}
    (hr : ∀ p, P String (refer p))
    (hn : ∀ level origin message, P Unit (Building.note level origin message))
    (hu : ∀ target, P Unit (Building.modifyRegistry (·.modify entity (·.addUse target))))
    (hp : ∀ p, P Unit (Building.modifyRegistry (·.modify entity (·.addProperty p))))
    (doc : Document) (c : Schema.Contribution) :
    P Unit (Building.extend refer doc entity c) := by
  have hadd (name : Scalar) (required : Bool) (t f d i : Value) : P Unit (do
      let property ← liftM (Property.ofValues required (Value.scalar name) t f d i)
      Building.modifyRegistry fun r => r.modify entity fun e => e.addProperty property) :=
    h.bind (h.lift _) hp
  cases c with
  | failure fault => exact h.throw fault
  | cycle p => exact hn _ _ _
  | property name schema required =>
      unfold Building.extend
      dsimp only
      split
      · exact h.pure _
      · refine h.bind (h.lift _) fun typing => ?_
        cases typing with
        | unsupported => exact h.bind (hn _ _ _) fun _ => h.pure _
        | plain t f d i => exact h.bind (h.pure _) fun _ => hadd name required _ _ _ _
        | entity p d =>
            refine h.bind (hr p) fun target => h.bind (hu target) fun _ => ?_
            exact h.bind (h.pure _) fun _ => hadd name required _ _ _ _
        | entities p d =>
            refine h.bind (hr p) fun target => h.bind (hu target) fun _ => ?_
            exact h.bind (h.pure _) fun _ => hadd name required _ _ _ _

namespace Building

open Walk

variable {R : Build → Build → Prop} [Build.Spans R]

theorem keeps_note (level : Level) (origin message : String) :
    Keeps R (note level origin message) :=
  Keeps.modify fun b => Build.Spans.of_write (.note b _)

theorem keeps_modifyRegistry {f : Registry → Registry} (h : ∀ r : Registry, r.Write (f r)) :
    Keeps R (modifyRegistry f) :=
  Keeps.modify fun b => Build.Spans.of_write (.registry b (h b.registry))

theorem keeps_registry : Keeps R registry :=
  Keeps.get.bind fun _ => Keeps.pure _

theorem keeps_register (name : String) : Keeps R (register name) := by
  refine keeps_registry.bind fun r => ?_
  split
  · exact Keeps.pure _
  · exact (keeps_modifyRegistry fun r => .register r name).bind fun _ => keeps_note _ _ _

/-- Extending an entity by a schema keeps what making the entities that the schema refers to
keeps. -/
theorem keeps_extend {refer : Value → Building String} (hr : ∀ p, Keeps R (refer p))
    (doc : Document) (entity : String) (c : Schema.Contribution) :
    Keeps R (extend refer doc entity c) :=
  compositional_keeps.extend hr keeps_note
    (fun target => keeps_modifyRegistry fun r => .addUse r entity target)
    (fun p => keeps_modifyRegistry fun r => .addProperty r entity p) doc c

theorem keeps_materialize (doc : Document) (room ancestry : List String) (name : String)
    (schema : Value) : Keeps R (materialize doc room ancestry name schema) := by
  induction room, ancestry, name, schema using materialize.induct with
  | case1 room ancestry name schema hname ih =>
      rw [materialize, dif_pos hname]
      refine (keeps_register name).bind fun _ => Keeps.get.bind fun b => ?_
      split
      · exact Keeps.pure _
      · refine (Keeps.forIn _ _ fun c _ _ => ?_).bind fun _ => ?_
        · refine (keeps_extend (fun p => ?_) doc name c).bind fun _ => Keeps.pure _
          refine (Keeps.lift _).bind fun found => ?_
          exact (ih found.1 found.2).bind fun _ => Keeps.pure _
        · exact Keeps.modify fun b => Build.Spans.of_write (.useUp b _)
  | case2 room ancestry name schema hname =>
      rw [materialize, dif_neg hname]
      exact keeps_note _ _ _

theorem keeps_ofPointer (doc : Document) (pointer : Value) (ancestry : List String) :
    Keeps R (ofPointer doc pointer ancestry) := by
  refine (Keeps.lift _).bind fun found => ?_
  exact (keeps_materialize doc _ _ _ _).bind fun _ => Keeps.pure _

end Building
end OpenApiClient
