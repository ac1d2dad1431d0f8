import OpenApiClient.Proofs.Shape

/-!
# Registries that agree on expressions

The expression for a type depends on the registry only through the types that it builds: two
registries give the same expression exactly if those types have the same properties in both,
and the properties hold the same.
-/

namespace OpenApiClient

/-- The entity that the value of a property is made of. -/
def Shape.type? : Shape → Option String
  | plain => none
  | entity type => some type
  | entities type => some type

/-- A type has the same properties in two registries, and they hold the same in both. -/
structure Registry.AgreesOn (r r' : Registry) (type : String) : Prop where
  properties : r.propertiesOf type = r'.propertiesOf type
  shape : ∀ p ∈ r.propertiesOf type, r.shape p = r'.shape p

theorem Registry.shape_eq_entities_iff {r : Registry} {p : Property} {inner : String} :
    r.shape p = .entities inner ↔
      p.type = "array" ∧ p.items = some inner ∧ r.contains inner = true := by
  unfold shape
  cases ha : p.type == "array" with
  | false =>
      have hne : p.type ≠ "array" := by simpa using ha
      by_cases hr : r.contains p.type = true <;> simp [hr, hne]
  | true =>
      have heq : p.type = "array" := by simpa using ha
      cases hi : p.items.filter r.contains with
      | some item =>
          obtain ⟨hitem, hr⟩ := Option.filter_eq_some_iff.1 hi
          simp only [Shape.entities.injEq, heq, hitem, Option.some.injEq, true_and]
          constructor
          · rintro rfl
            exact ⟨rfl, hr⟩
          · exact And.left
      | none =>
          have hnot : ¬ (p.items = some inner ∧ r.contains inner = true) := fun h => by
            rw [Option.filter_eq_some_iff.2 h] at hi
            cases hi
          dsimp only
          split <;> simp [hnot]

theorem Registry.type_of_shape_eq_entity {r : Registry} {p : Property} {inner : String}
    (h : r.shape p = .entity inner) : p.type = inner ∧ r.contains inner = true := by
  unfold shape at h
  split at h
  · cases h
  · split at h
    · next hr =>
        obtain rfl := Shape.entity.inj h
        exact ⟨rfl, hr⟩
    · cases h

/-- What a property is made of is registered. -/
theorem Registry.contains_of_type?_shape {r : Registry} {p : Property} {inner : String}
    (h : (r.shape p).type? = some inner) : r.contains inner = true := by
  cases hs : r.shape p with
  | plain =>
      rw [hs] at h
      cases h
  | entity type =>
      rw [hs] at h
      obtain rfl := Option.some.inj h
      exact (type_of_shape_eq_entity hs).2
  | entities type =>
      rw [hs] at h
      obtain rfl := Option.some.inj h
      exact (shape_eq_entities_iff.1 hs).2.2

/-- The entity that a property is made of tells what the property holds. -/
theorem Registry.shape_eq_of_type?_eq {r r' : Registry} {p : Property}
    (h : (r.shape p).type? = (r'.shape p).type?) : r.shape p = r'.shape p := by
  -- A list of items of a type `array` would be the property itself.
  have hclash : ∀ (r r' : Registry) (inner : String), r.shape p = .entity inner →
      r'.shape p ≠ .entities inner := by
    intro r r' inner he he'
    obtain ⟨rfl, hr⟩ := type_of_shape_eq_entity he
    obtain ⟨ha, hi, -⟩ := shape_eq_entities_iff.1 he'
    rw [shape_eq_entities_iff.2 ⟨ha, hi, hr⟩] at he
    cases he
  cases hs : r.shape p with
  | plain => cases hs' : r'.shape p <;> simp [hs, hs', Shape.type?] at h ⊢
  | entity inner =>
      cases hs' : r'.shape p with
      | plain => simp [hs, hs', Shape.type?] at h
      | entity inner' => simpa [hs, hs', Shape.type?] using h
      | entities inner' =>
          obtain rfl : inner = inner' := by simpa [hs, hs', Shape.type?] using h
          exact absurd hs' (hclash r r' inner hs)
  | entities inner =>
      cases hs' : r'.shape p with
      | plain => simp [hs, hs', Shape.type?] at h
      | entity inner' =>
          obtain rfl : inner = inner' := by simpa [hs, hs', Shape.type?] using h
          exact absurd hs (hclash r' r inner hs')
      | entities inner' => simpa [hs, hs', Shape.type?] using h

theorem Registry.mem_names_of_mem_propertiesOf {r : Registry} {type : String} {p : Property}
    (h : p ∈ r.propertiesOf type) : type ∈ r.names := by
  unfold propertiesOf at h
  cases he : r.get? type with
  | none =>
      rw [he] at h
      cases h
  | some e => exact mem_names_of_get? he

namespace Expression

variable {r r' : Registry}

mutual

/-- The objects that an expression builds, with their arguments. -/
def constructs : Expression → List (String × List Expression)
  | .field _ => []
  | .construct target arguments => (target, arguments) :: constructsOfAll arguments
  | .arrayMap _ _ body => body.constructs
  | .nullGuard _ body => body.constructs
  | .null _ => []

def constructsOfAll : List Expression → List (String × List Expression)
  | [] => []
  | e :: rest => e.constructs ++ constructsOfAll rest

end

theorem mem_constructsOfAll {es : List Expression} {c : String × List Expression} :
    c ∈ constructsOfAll es ↔ ∃ e ∈ es, c ∈ e.constructs := by
  induction es with
  | nil => simp [constructsOfAll]
  | cons e rest ih => simp [constructsOfAll, ih]

@[simp] theorem constructs_unlessRequired (p : Property) (binding : Binding) (path : List String)
    (e : Expression) : (unlessRequired p binding path e).constructs = e.constructs := by
  unfold unlessRequired
  split <;> rfl

/-- What is left null where it is not required is told by the expression. -/
theorem unlessRequired_inj {p : Property} {binding : Binding} {path : List String}
    {e e' : Expression} :
    unlessRequired p binding path e = unlessRequired p binding path e' ↔ e = e' := by
  unfold unlessRequired
  split <;> simp

/-- An argument builds what the expression for the entity of its property builds, if that is not
being built further outside. -/
theorem mem_constructs_ofProperty {ancestry : List String} {p : Property} {binding : Binding}
    {path : List String} {c : String × List Expression} :
    c ∈ (ofProperty r ancestry p binding path).constructs ↔
      ∃ inner, (r.shape p).type? = some inner ∧ inner ∉ ancestry ∧
        c ∈ (match r.shape p with
          | .entities _ => ofType r ancestry inner binding.inner []
          | _ => ofType r ancestry inner binding path).constructs := by
  rw [ofProperty_eq]
  cases r.shape p with
  | plain => simp [Shape.type?, constructs]
  | entity inner =>
      by_cases hin : inner ∈ ancestry
      · simp [Shape.type?, constructs, hin]
      · simp [Shape.type?, hin]
  | entities inner =>
      by_cases hin : inner ∈ ancestry
      · simp [Shape.type?, constructs, hin]
      · simp [Shape.type?, constructs, hin]

theorem mem_constructs_ofType {ancestry : List String} {type : String} (hnew : type ∉ ancestry)
    {binding : Binding} {path : List String} {c : String × List Expression} :
    c ∈ (ofType r ancestry type binding path).constructs ↔
      c = (type, (r.propertiesOf type).map fun p =>
        ofProperty r (ancestry ++ [type]) p binding (path ++ [p.name])) ∨
      ∃ p ∈ r.propertiesOf type,
        c ∈ (ofProperty r (ancestry ++ [type]) p binding (path ++ [p.name])).constructs := by
  rw [ofType_eq hnew, constructs, List.mem_cons, mem_constructsOfAll]
  simp

/-- What holds of a type as soon as it holds of the entities of its properties that are not being
built further outside, holds of every type: each type that is being built is one open name
less. -/
theorem nested_induction {motive : List String → String → Prop}
    (h : ∀ ancestry type, (type ∉ ancestry → ∀ p ∈ r.propertiesOf type, ∀ inner,
      (r.shape p).type? = some inner → inner ∉ ancestry ++ [type] →
        motive (ancestry ++ [type]) inner) → motive ancestry type)
    (ancestry : List String) (type : String) : motive ancestry type :=
  h ancestry type fun _hnew p hp inner _ _ =>
    have _hregistered : type ∈ r.names := Registry.mem_names_of_mem_propertiesOf hp
    nested_induction h (ancestry ++ [type]) inner
termination_by (openNames r ancestry).length
decreasing_by exact length_openNames_lt _hregistered (by simpa using _hnew)

/-- Every object that an expression builds has an argument for each property of its type. -/
theorem exists_arguments_of_mem_constructs {ancestry : List String} {type : String}
    (hnew : type ∉ ancestry) {binding : Binding} {path : List String} {target : String}
    {arguments : List Expression}
    (h : (target, arguments) ∈ (ofType r ancestry type binding path).constructs) :
    ∃ (outer : List String) (from' : Binding) (prior : List String),
      arguments = (r.propertiesOf target).map fun p =>
        ofProperty r outer p from' (prior ++ [p.name]) := by
  induction ancestry, type using nested_induction (r := r) generalizing binding path with
  | h ancestry type ih =>
      rcases (mem_constructs_ofType hnew).1 h with heq | ⟨p, hp, hc⟩
      · obtain ⟨rfl, rfl⟩ := Prod.mk.inj heq
        exact ⟨_, _, _, rfl⟩
      · obtain ⟨inner, hshape, hin, hc⟩ := mem_constructs_ofProperty.1 hc
        split at hc <;> exact ih hnew p hp inner hshape hin hin hc

/-- The type that an expression stands for, if it stands for one. -/
def type? : Expression → Option String
  | .field _ => none
  | .construct target _ => some target
  | .arrayMap _ _ body => body.type?
  | .nullGuard _ body => body.type?
  | .null typeName => some typeName

@[simp] theorem type?_unlessRequired (p : Property) (binding : Binding) (path : List String)
    (e : Expression) : (unlessRequired p binding path e).type? = e.type? := by
  unfold unlessRequired
  split <;> rfl

theorem type?_ofType (r : Registry) (ancestry : List String) (type : String) (binding : Binding)
    (path : List String) : (ofType r ancestry type binding path).type? = some type := by
  rw [ofType]
  split
  · rfl
  · split <;> rfl

/-- An argument tells the entity of its property. -/
theorem type?_ofProperty (r : Registry) (ancestry : List String) (p : Property)
    (binding : Binding) (path : List String) :
    (ofProperty r ancestry p binding path).type? = (r.shape p).type? := by
  rw [ofProperty_eq]
  cases r.shape p with
  | plain => rfl
  | entity inner =>
      dsimp only
      split
      · rfl
      · rw [type?_unlessRequired, type?_ofType]
        rfl
  | entities inner =>
      dsimp only
      split
      · rfl
      · rw [type?_unlessRequired, type?, type?_ofType]
        rfl

/-- Two registries in which a property holds the same give the same argument for it exactly if
they agree on what the argument builds. -/
theorem ofProperty_eq_iff {ancestry : List String} {p : Property} {binding : Binding}
    {path : List String} (hshape : r.shape p = r'.shape p)
    (hnested : ∀ inner, (r.shape p).type? = some inner → inner ∉ ancestry →
      ∀ (binding : Binding) (path : List String),
        ofType r ancestry inner binding path = ofType r' ancestry inner binding path ↔
          ∀ c ∈ (ofType r ancestry inner binding path).constructs, r.AgreesOn r' c.1) :
    ofProperty r ancestry p binding path = ofProperty r' ancestry p binding path ↔
      ∀ c ∈ (ofProperty r ancestry p binding path).constructs, r.AgreesOn r' c.1 := by
  rw [ofProperty_eq, ofProperty_eq, ← hshape]
  cases hs : r.shape p with
  | plain => simp [constructs]
  | entity inner =>
      by_cases hin : inner ∈ ancestry
      · simp [hin, constructs]
      · have h := hnested inner (by rw [hs]; rfl) hin binding path
        simp [hin, unlessRequired_inj, h]
  | entities inner =>
      by_cases hin : inner ∈ ancestry
      · simp [hin, constructs]
      · have h := hnested inner (by rw [hs]; rfl) hin binding.inner []
        simp [hin, unlessRequired_inj, h, constructs]

/-- A registry and one that has more properties give the same expression for a type exactly if
they agree on every type that the expression builds. -/
theorem ofType_eq_iff (hmore : ∀ name, r.propertiesOf name <+: r'.propertiesOf name)
    {ancestry : List String} {type : String} (hnew : type ∉ ancestry) (binding : Binding)
    (path : List String) :
    ofType r ancestry type binding path = ofType r' ancestry type binding path ↔
      ∀ c ∈ (ofType r ancestry type binding path).constructs, r.AgreesOn r' c.1 := by
  induction ancestry, type using nested_induction (r := r) generalizing binding path with
  | h ancestry type ih =>
      have hargument : ∀ p ∈ r.propertiesOf type, r.shape p = r'.shape p →
          (ofProperty r (ancestry ++ [type]) p binding (path ++ [p.name]) =
            ofProperty r' (ancestry ++ [type]) p binding (path ++ [p.name]) ↔
          ∀ c ∈ (ofProperty r (ancestry ++ [type]) p binding (path ++ [p.name])).constructs,
            r.AgreesOn r' c.1) := fun p hp hshape =>
        ofProperty_eq_iff hshape fun inner htype hin binding path =>
          ih hnew p hp inner htype hin hin binding path
      constructor
      · intro h
        rw [ofType_eq hnew, ofType_eq hnew, construct.injEq] at h
        have hlength : (r.propertiesOf type).length = (r'.propertiesOf type).length := by
          simpa using congrArg List.length h.2
        have hps : r.propertiesOf type = r'.propertiesOf type :=
          (hmore type).eq_of_length hlength
        rw [← hps] at h
        have heq := List.map_inj_left.1 h.2
        have hshape : ∀ p ∈ r.propertiesOf type, r.shape p = r'.shape p := by
          intro p hp
          apply Registry.shape_eq_of_type?_eq
          rw [← type?_ofProperty, ← type?_ofProperty, heq p hp]
        intro c hc
        rcases (mem_constructs_ofType hnew).1 hc with rfl | ⟨p, hp, hc⟩
        · exact ⟨hps, hshape⟩
        · exact (hargument p hp (hshape p hp)).1 (heq p hp) c hc
      · intro h
        have hown : r.AgreesOn r' type := h _ ((mem_constructs_ofType hnew).2 (.inl rfl))
        rw [ofType_eq hnew, ofType_eq hnew, ← hown.properties]
        congr 1
        refine List.map_congr_left fun p hp => ?_
        refine (hargument p hp (hown.shape p hp)).2 fun c hc => ?_
        exact h c ((mem_constructs_ofType hnew).2 (.inr ⟨p, hp, hc⟩))

theorem ofResponse_eq_iff (hmore : ∀ name, r.propertiesOf name <+: r'.propertiesOf name)
    (type : String) (isArray : Bool) :
    ofResponse r type isArray = ofResponse r' type isArray ↔
      ∀ c ∈ (ofResponse r type isArray).constructs, r.AgreesOn r' c.1 := by
  unfold ofResponse synthesize
  cases isArray with
  | true => simpa [constructs] using ofType_eq_iff hmore List.not_mem_nil _ _
  | false => simpa using ofType_eq_iff hmore List.not_mem_nil _ _

/-- Every object that the expression of a response builds has an argument for each property of
its type. -/
theorem exists_arguments_of_mem_constructs_ofResponse {type : String} {isArray : Bool}
    {target : String} {arguments : List Expression}
    (h : (target, arguments) ∈ (ofResponse r type isArray).constructs) :
    ∃ (outer : List String) (from' : Binding) (prior : List String),
      arguments = (r.propertiesOf target).map fun p =>
        ofProperty r outer p from' (prior ++ [p.name]) := by
  unfold ofResponse synthesize at h
  cases isArray <;> exact exists_arguments_of_mem_constructs List.not_mem_nil h

end Expression

end OpenApiClient
