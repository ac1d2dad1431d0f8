import OpenApiClient.Proofs.Agreement
import OpenApiClient.Proofs.Buckets
import Mathlib.Logic.Relation

/-!
# What an expression depends on

The types that an expression builds are the ones that can be reached from its type along the
entities of properties.  An expression follows only ways on which no type comes twice, and leaves
null what would come again; but a way that comes back to a type can leave out what lies between, so
whatever can be reached is built on some branch.
-/

namespace OpenApiClient

/-- A type has a property that is made of an entity. -/
def Registry.Leads (r : Registry) (type inner : String) : Prop :=
  ∃ p ∈ r.propertiesOf type, (r.shape p).type? = some inner

namespace Expression

variable {r : Registry} {ancestry : List String} {type name : String} {binding : Binding}
  {path : List String}

/-- One step to an entity that is none of the given ones. -/
def LeadsOff (r : Registry) (avoided : List String) (type inner : String) : Prop :=
  r.Leads type inner ∧ inner ∉ avoided

/-- What can be reached from a type can be reached by a way that does not come back to it. -/
theorem exists_leadsOff (h : Relation.ReflTransGen (LeadsOff r ancestry) type name) :
    name = type ∨ ∃ inner, LeadsOff r (ancestry ++ [type]) type inner ∧
      Relation.ReflTransGen (LeadsOff r (ancestry ++ [type])) inner name := by
  by_cases hname : name = type
  · exact .inl hname
  right
  -- From wherever the way is followed, it either stays off the type or leaves it for the last time.
  have hway : ∀ start, Relation.ReflTransGen (LeadsOff r ancestry) start name →
      (start ≠ type ∧ Relation.ReflTransGen (LeadsOff r (ancestry ++ [type])) start name) ∨
      ∃ inner, LeadsOff r (ancestry ++ [type]) type inner ∧
        Relation.ReflTransGen (LeadsOff r (ancestry ++ [type])) inner name := by
    intro start h
    induction h using Relation.ReflTransGen.head_induction_on with
    | refl => exact .inl ⟨hname, .refl⟩
    | @head start next hstep _ ih =>
        rcases ih with ⟨hnext, ih⟩ | ih
        · have hoff : LeadsOff r (ancestry ++ [type]) start next := by
            refine ⟨hstep.1, ?_⟩
            simp [hstep.2, hnext]
          by_cases hstart : start = type
          · exact .inr ⟨next, hstart ▸ hoff, ih⟩
          · exact .inl ⟨hstart, ih.head hoff⟩
        · exact .inr ih
  rcases hway type h with ⟨hne, -⟩ | h
  · exact absurd rfl hne
  · exact h

/-- A way off more types is a way off fewer. -/
theorem LeadsOff.mono {avoided : List String} {inner : String}
    (h : LeadsOff r (ancestry ++ avoided) type inner) : LeadsOff r ancestry type inner :=
  ⟨h.1, fun hin => h.2 (List.mem_append_left _ hin)⟩

theorem mem_targetsOfAll {es : List Expression} :
    name ∈ targetsOfAll es ↔ ∃ e ∈ es, name ∈ e.targets := by
  induction es with
  | nil => simp [targetsOfAll]
  | cons e rest ih => simp [targetsOfAll, ih]

@[simp] theorem targets_unlessRequired (p : Property) (binding : Binding) (path : List String)
    (e : Expression) : (unlessRequired p binding path e).targets = e.targets := by
  unfold unlessRequired
  split <;> rfl

/-- The argument for a property builds what the expression for its entity builds, if that is not
being built further outside. -/
theorem mem_targets_ofProperty {p : Property} {built : String → Prop}
    (hnested : ∀ inner, (r.shape p).type? = some inner → inner ∉ ancestry →
      ∀ (binding : Binding) (path : List String),
        name ∈ (ofType r ancestry inner binding path).targets ↔ built inner) :
    name ∈ (ofProperty r ancestry p binding path).targets ↔
      ∃ inner, (r.shape p).type? = some inner ∧ inner ∉ ancestry ∧ built inner := by
  rw [ofProperty_eq]
  cases hs : r.shape p with
  | plain => simp [targets, Shape.type?]
  | entity inner =>
      by_cases hin : inner ∈ ancestry
      · simp [targets, Shape.type?, hin]
      · simp [Shape.type?, hin, hnested inner (by rw [hs]; rfl) hin]
  | entities inner =>
      by_cases hin : inner ∈ ancestry
      · simp [targets, Shape.type?, hin]
      · simp [targets, Shape.type?, hin, hnested inner (by rw [hs]; rfl) hin]

/-- The types that are built inside others are those that can be reached without coming back to
one of these. -/
theorem mem_targets_ofType (hnew : type ∉ ancestry) :
    name ∈ (ofType r ancestry type binding path).targets ↔
      Relation.ReflTransGen (LeadsOff r ancestry) type name := by
  induction ancestry, type using nested_induction (r := r) generalizing binding path with
  | h ancestry type ih =>
      have hargument : ∀ p ∈ r.propertiesOf type,
          name ∈ (ofProperty r (ancestry ++ [type]) p binding (path ++ [p.name])).targets ↔
            ∃ inner, (r.shape p).type? = some inner ∧ inner ∉ ancestry ++ [type] ∧
              Relation.ReflTransGen (LeadsOff r (ancestry ++ [type])) inner name :=
        fun p hp => mem_targets_ofProperty fun inner hs hin _ _ => ih hnew p hp inner hs hin hin
      rw [ofType_eq hnew, targets, List.mem_cons, mem_targetsOfAll]
      constructor
      · rintro (rfl | ⟨e, he, h⟩)
        · exact .refl
        · obtain ⟨p, hp, rfl⟩ := List.mem_map.1 he
          obtain ⟨inner, hs, hin, h⟩ := (hargument p hp).1 h
          have hstep : LeadsOff r (ancestry ++ [type]) type inner := ⟨⟨p, hp, hs⟩, hin⟩
          have hrest : Relation.ReflTransGen (LeadsOff r ancestry) inner name :=
            Relation.ReflTransGen.mono (fun _ _ => LeadsOff.mono) _ _ h
          exact hrest.head hstep.mono
      · intro h
        rcases exists_leadsOff h with rfl | ⟨inner, ⟨⟨p, hp, hs⟩, hin⟩, h⟩
        · exact .inl rfl
        · exact .inr ⟨_, List.mem_map_of_mem hp, (hargument p hp).2 ⟨inner, hs, hin, h⟩⟩

theorem dependencies_eq (e : Expression) : e.dependencies = e.targets.eraseDups := by
  rw [dependencies, firstMet, foldl_addNew]

/-- The types that a response depends on are listed once each, its own type first, and are exactly
those that can be reached from it along the entities of properties. -/
theorem dependencies_ofResponse (r : Registry) (type : String) (isArray : Bool) :
    (ofResponse r type isArray).dependencies.Nodup ∧
    (ofResponse r type isArray).dependencies.head? = some type ∧
    ∀ name, name ∈ (ofResponse r type isArray).dependencies ↔
      Relation.ReflTransGen r.Leads type name := by
  obtain ⟨binding, htargets⟩ : ∃ binding,
      (ofResponse r type isArray).targets = (ofType r [] type binding []).targets := by
    unfold ofResponse synthesize
    cases isArray with
    | false => exact ⟨_, rfl⟩
    | true => exact ⟨_, rfl⟩
  rw [dependencies_eq, htargets]
  refine ⟨nodup_eraseDups _, ?first, fun name => ?reached⟩
  case first =>
    rw [ofType_eq List.not_mem_nil, targets, List.eraseDups_cons]
    rfl
  case reached =>
    rw [List.mem_eraseDups, mem_targets_ofType List.not_mem_nil]
    have hleads : LeadsOff r [] = r.Leads := by
      funext type inner
      simp [LeadsOff]
    rw [hleads]

end Expression

end OpenApiClient
