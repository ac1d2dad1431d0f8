import OpenApiClient.Expression.Synthesis
import OpenApiClient.Proofs.Lookup

/-!
# What a property holds

A registry tells whether a property holds an entity, a list of entities or anything else.  The
expression for an entity is read off the shapes of its properties.
-/

namespace OpenApiClient

/-- What the value of a property is. -/
inductive Shape where
  | plain
  | entity (type : String)
  | entities (type : String)
  deriving DecidableEq, Repr

/-- What the value of a property is, by the names that are registered. -/
def Registry.shape (r : Registry) (p : Property) : Shape :=
  match p.type == "array", p.items.filter r.contains with
  | true, some item => .entities item
  | _, _ => if r.contains p.type then .entity p.type else .plain

namespace Expression

/-- An expression that is left null where a property that is not required is not there. -/
def unlessRequired (p : Property) (binding : Binding) (path : List String) (e : Expression) :
    Expression :=
  if p.required then e else .nullGuard ⟨binding, path, false⟩ e

/-- The expression for a property, by its shape. -/
theorem ofProperty_eq (r : Registry) (ancestry : List String) (p : Property) (binding : Binding)
    (path : List String) :
    ofProperty r ancestry p binding path = match r.shape p with
      | .plain => .field ⟨binding, path, !p.required⟩
      | .entity type =>
        if ancestry.contains type then .null type
        else unlessRequired p binding path (ofType r ancestry type binding path)
      | .entities type =>
        if ancestry.contains type then .null type
        else unlessRequired p binding path (.arrayMap ⟨binding, path, false⟩ binding.inner
          (ofType r ancestry type binding.inner [])) := by
  rw [ofProperty]
  unfold Registry.shape unlessRequired
  cases ha : p.type == "array" with
  | true =>
      cases hi : p.items.filter r.contains with
      | some item => rfl
      | none => by_cases hr : r.contains p.type = true <;> simp [hr]
  | false => by_cases hr : r.contains p.type = true <;> simp [hr]

/-- The expression for an entity that is not being built has an argument for each property. -/
theorem ofType_eq {r : Registry} {ancestry : List String} {type : String}
    (hnew : type ∉ ancestry) (binding : Binding) (path : List String) :
    ofType r ancestry type binding path =
      .construct type ((r.propertiesOf type).map fun p =>
        ofProperty r (ancestry ++ [type]) p binding (path ++ [p.name])) := by
  have ha : ¬ ancestry.contains type = true := by simpa using hnew
  rw [ofType, dif_neg ha]
  unfold Registry.propertiesOf
  split
  · next h => simp [h]
  · next e h => simp [h]

end Expression

end OpenApiClient
