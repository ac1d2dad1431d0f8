import OpenApiClient.Entity.Registry
import OpenApiClient.Expression.Basic

/-!
# Expressions for entities

The expression that builds an entity has an argument for each of its properties.  A property
that is itself an entity is built from the same value, further along the path; a list of
entities is walked through, and the path starts anew at its elements.  An entity that is being
built further outside is left null, which keeps expressions finite: each nested entity takes a
name off the names that may still be built.
-/

namespace OpenApiClient.Expression

/-- The registered names that are not being built. -/
def openNames (r : Registry) (ancestry : List String) : List String :=
  r.names.filter (!ancestry.contains ·)

/-- Starting to build a registered name takes it off the open names. -/
theorem length_openNames_lt {r : Registry} {ancestry : List String} {type : String}
    (hr : type ∈ r.names) (ha : ancestry.contains type = false) :
    (openNames r (ancestry ++ [type])).length < (openNames r ancestry).length := by
  have h : openNames r (ancestry ++ [type]) = (openNames r ancestry).filter (· != type) := by
    simp only [openNames, List.filter_filter]
    congr 1
    funext n
    by_cases hn : n = type <;> simp [hn]
  rw [h]
  exact List.length_filter_lt_length_iff_exists.2
    ⟨type, by simp only [openNames, List.mem_filter, hr, ha, Bool.not_false, and_self], by simp⟩

mutual

/-- Builds a type from the value at a path, inside the types that are being built. -/
def ofType (r : Registry) (ancestry : List String) (type : String) (binding : Binding)
    (path : List String) : Expression :=
  if _ha : ancestry.contains type then .null type
  else
    match _h : r.get? type with
    | none => .construct type []
    | some entity =>
      .construct type (entity.properties.map fun p =>
        ofProperty r (ancestry ++ [type]) p binding (path ++ [p.name]))
termination_by 2 * (openNames r ancestry).length
decreasing_by
  have := length_openNames_lt (Registry.mem_names_of_get? _h) (by simpa using _ha)
  omega

/-- The argument for a property whose value stands at a path. -/
def ofProperty (r : Registry) (ancestry : List String) (p : Property) (binding : Binding)
    (path : List String) : Expression :=
  match p.type == "array", p.items.filter r.contains with
  | true, some item =>
    if ancestry.contains item then .null item
    else
      let list := .arrayMap ⟨binding, path, false⟩ binding.inner
        (ofType r ancestry item binding.inner [])
      if p.required then list else .nullGuard ⟨binding, path, false⟩ list
  | _, _ =>
    if r.contains p.type then
      if ancestry.contains p.type then .null p.type
      else
        let nested := ofType r ancestry p.type binding path
        if p.required then nested else .nullGuard ⟨binding, path, false⟩ nested
    else .field ⟨binding, path, !p.required⟩
termination_by 2 * (openNames r ancestry).length + 1
decreasing_by
  all_goals omega

end

/-- Builds a type, or a list of it, from the value at a path. -/
def synthesize (r : Registry) (type : String) (isArray : Bool) (binding : Binding)
    (path ancestry : List String) : Expression :=
  if isArray then
    .arrayMap ⟨binding, path, false⟩ binding.inner (ofType r ancestry type binding.inner [])
  else ofType r ancestry type binding path

/-- Builds a type, or a list of it, from a response body. -/
def ofResponse (r : Registry) (type : String) (isArray : Bool) : Expression :=
  synthesize r type isArray .response [] []

end OpenApiClient.Expression
