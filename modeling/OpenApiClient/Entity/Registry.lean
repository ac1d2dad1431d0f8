import OpenApiClient.Entity.Basic

/-!
# The registry of entities

All entities of a description, in the order in which their names were first met.  Entities
are only ever added or extended.
-/

namespace OpenApiClient

/-- The entities met so far. -/
structure Registry where
  entities : List Entity := []
  deriving DecidableEq, Repr

namespace Registry

/-- The names of the entities. -/
def names (r : Registry) : List String := r.entities.map (·.name)

/-- The entity of a name. -/
def get? (r : Registry) (name : String) : Option Entity := r.entities.find? (·.name == name)

/-- Whether there is an entity of that name. -/
def contains (r : Registry) (name : String) : Bool := (r.get? name).isSome

/-- Registers a name. -/
def register (r : Registry) (name : String) : Registry :=
  if r.contains name then r else ⟨r.entities ++ [{ name := name }]⟩

/-- Changes the entity of a name. -/
def modify (r : Registry) (name : String) (f : Entity → Entity) : Registry :=
  ⟨r.entities.map fun e => if e.name = name then f e else e⟩

theorem contains_iff_mem_names (r : Registry) (name : String) :
    r.contains name = true ↔ name ∈ r.names := by
  simp [contains, get?, names]

theorem mem_names_of_get? {r : Registry} {name : String} {e : Entity}
    (h : r.get? name = some e) : name ∈ r.names := by
  rw [← contains_iff_mem_names, contains, h]; rfl

/-- Extending an entity leaves the names as they are. -/
theorem names_modify (r : Registry) (name : String) {f : Entity → Entity}
    (h : ∀ e, (f e).name = e.name) : (r.modify name f).names = r.names := by
  unfold modify names
  rw [List.map_map]
  refine List.map_congr_left fun e _ => ?_
  by_cases hn : e.name = name <;> simp [hn, h]

end Registry

end OpenApiClient
