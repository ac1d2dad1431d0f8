import OpenApiClient.Proofs.Agreement
import Mathlib.Data.List.Forall2
import Mathlib.Data.List.Nodup
import Mathlib.Data.List.Perm.Subperm

/-!
# Types that are built inside each other

The expression for a type follows the entities of its properties, which may lead back to the type.
`Builds` states the rules by which it is built, with nothing in them that bounds the depth: a type
that is being built further outside is left null, and that is all.  Still the rules come to an end
for every registry, and with one expression only.

`Occurs e outer sub` says that `sub` stands in the expression `e` inside the objects of the types
`outer`, outermost first.  No type is built inside itself, so there are never more types around a
part than there are registered names; and null stands for an entity exactly where that entity is
being built around it.
-/

namespace OpenApiClient.Expression

variable {r : Registry} {ancestry outer : List String} {type : String} {p : Property}
  {binding : Binding} {path : List String} {e sub : Expression}

mutual

/-- The rules by which a type is built, inside the types that are being built. -/
inductive Builds (r : Registry) :
    List String → String → Binding → List String → Expression → Prop
  | cut {ancestry : List String} {type : String} {binding : Binding} {path : List String}
      (hin : type ∈ ancestry) : Builds r ancestry type binding path (.null type)
  | construct {ancestry : List String} {type : String} {binding : Binding} {path : List String}
      {argument : Property → Expression} (hnew : type ∉ ancestry)
      (hargument : ∀ p ∈ r.propertiesOf type,
        BuildsArgument r (ancestry ++ [type]) p binding (path ++ [p.name]) (argument p)) :
      Builds r ancestry type binding path (.construct type ((r.propertiesOf type).map argument))

/-- The rules by which the argument for a property is built. -/
inductive BuildsArgument (r : Registry) :
    List String → Property → Binding → List String → Expression → Prop
  | plain {ancestry : List String} {p : Property} {binding : Binding} {path : List String}
      (hs : r.shape p = .plain) :
      BuildsArgument r ancestry p binding path (.field ⟨binding, path, !p.required⟩)
  | cut {ancestry : List String} {p : Property} {binding : Binding} {path : List String}
      {inner : String} (hs : (r.shape p).type? = some inner) (hin : inner ∈ ancestry) :
      BuildsArgument r ancestry p binding path (.null inner)
  | entity {ancestry : List String} {p : Property} {binding : Binding} {path : List String}
      {inner : String} {e : Expression} (hs : r.shape p = .entity inner)
      (hnew : inner ∉ ancestry) (he : Builds r ancestry inner binding path e) :
      BuildsArgument r ancestry p binding path (unlessRequired p binding path e)
  | entities {ancestry : List String} {p : Property} {binding : Binding} {path : List String}
      {inner : String} {e : Expression} (hs : r.shape p = .entities inner)
      (hnew : inner ∉ ancestry) (he : Builds r ancestry inner binding.inner [] e) :
      BuildsArgument r ancestry p binding path
        (unlessRequired p binding path (.arrayMap ⟨binding, path, false⟩ binding.inner e))

end

/-- The argument for a property that is left null, as its entity is being built further outside. -/
theorem ofProperty_of_mem {inner : String} (hs : (r.shape p).type? = some inner)
    (hin : inner ∈ ancestry) : ofProperty r ancestry p binding path = .null inner := by
  rw [ofProperty_eq]
  cases hshape : r.shape p with
  | plain => simp [hshape, Shape.type?] at hs
  | entity type =>
      obtain rfl : type = inner := by simpa [hshape, Shape.type?] using hs
      simp [hin]
  | entities type =>
      obtain rfl : type = inner := by simpa [hshape, Shape.type?] using hs
      simp [hin]

/-- The rules give the argument that they give for the entity of the property. -/
theorem buildsArgument_iff
    (hnested : ∀ inner, (r.shape p).type? = some inner → inner ∉ ancestry →
      ∀ (binding : Binding) (path : List String) (e : Expression),
        Builds r ancestry inner binding path e ↔ e = ofType r ancestry inner binding path) :
    BuildsArgument r ancestry p binding path e ↔ e = ofProperty r ancestry p binding path := by
  constructor
  · intro h
    cases h with
    | plain hs => rw [ofProperty_eq, hs]
    | cut hs hin => rw [ofProperty_of_mem hs hin]
    | entity hs hnew he =>
        rw [(hnested _ (by rw [hs]; rfl) hnew _ _ _).1 he, ofProperty_eq, hs]
        simp [hnew]
    | entities hs hnew he =>
        rw [(hnested _ (by rw [hs]; rfl) hnew _ _ _).1 he, ofProperty_eq, hs]
        simp [hnew]
  · rintro rfl
    cases hs : r.shape p with
    | plain =>
        rw [ofProperty_eq, hs]
        exact .plain hs
    | entity inner =>
        have htype : (r.shape p).type? = some inner := by rw [hs]; rfl
        by_cases hin : inner ∈ ancestry
        · rw [ofProperty_of_mem htype hin]
          exact .cut htype hin
        · have he := (hnested inner htype hin binding path _).2 rfl
          rw [ofProperty_eq, hs]
          simpa [hin] using BuildsArgument.entity hs hin he
    | entities inner =>
        have htype : (r.shape p).type? = some inner := by rw [hs]; rfl
        by_cases hin : inner ∈ ancestry
        · rw [ofProperty_of_mem htype hin]
          exact .cut htype hin
        · have he := (hnested inner htype hin binding.inner [] _).2 rfl
          rw [ofProperty_eq, hs]
          simpa [hin] using BuildsArgument.entities hs hin he

/-- The rules come to an end with the expression for the type, and with no other one. -/
theorem builds_iff :
    Builds r ancestry type binding path e ↔ e = ofType r ancestry type binding path := by
  induction ancestry, type using nested_induction (r := r) generalizing binding path e with
  | h ancestry type ih =>
      by_cases hnew : type ∈ ancestry
      · have hcut : ofType r ancestry type binding path = .null type := by
          rw [ofType, dif_pos (by simpa using hnew)]
        rw [hcut]
        constructor
        · intro h
          cases h with
          | cut => rfl
          | construct hnot => exact absurd hnew hnot
        · rintro rfl
          exact .cut hnew
      · have hargument : ∀ p ∈ r.propertiesOf type, ∀ e,
            BuildsArgument r (ancestry ++ [type]) p binding (path ++ [p.name]) e ↔
              e = ofProperty r (ancestry ++ [type]) p binding (path ++ [p.name]) :=
          fun p hp e => buildsArgument_iff fun inner htype hin _ _ _ =>
            ih hnew p hp inner htype hin
        rw [ofType_eq hnew]
        constructor
        · intro h
          cases h with
          | cut hin => exact absurd hin hnew
          | construct _ h => rw [List.map_congr_left fun p hp => (hargument p hp _).1 (h p hp)]
        · rintro rfl
          exact .construct hnew fun p hp => (hargument p hp _).2 rfl

/-- The rules by which the response of a type, or of a list of it, is built from the body. -/
inductive BuildsResponse (r : Registry) : String → Bool → Expression → Prop
  | object {type : String} {e : Expression} (he : Builds r [] type .response [] e) :
      BuildsResponse r type false e
  | list {type : String} {e : Expression} (he : Builds r [] type Binding.response.inner [] e) :
      BuildsResponse r type true (.arrayMap ⟨.response, [], false⟩ Binding.response.inner e)

theorem buildsResponse_iff {isArray : Bool} :
    BuildsResponse r type isArray e ↔ e = ofResponse r type isArray := by
  unfold ofResponse synthesize
  constructor
  · intro h
    cases h with
    | object he => simpa using builds_iff.1 he
    | list he => rw [builds_iff.1 he, if_pos rfl]
  · rintro rfl
    cases isArray with
    | false => exact .object (builds_iff.2 rfl)
    | true => exact .list (builds_iff.2 rfl)

/-- A part stands in an expression, inside the objects of the types `outer`, outermost first. -/
inductive Occurs : Expression → List String → Expression → Prop
  | here (e : Expression) : Occurs e [] e
  | argument {target : String} {arguments : List Expression} {e sub : Expression}
      {outer : List String} (he : e ∈ arguments) (h : Occurs e outer sub) :
      Occurs (.construct target arguments) (target :: outer) sub
  | element {source : FieldRead} {binding : Binding} {body sub : Expression}
      {outer : List String} (h : Occurs body outer sub) :
      Occurs (.arrayMap source binding body) outer sub
  | guarded {subject : FieldRead} {body sub : Expression} {outer : List String}
      (h : Occurs body outer sub) : Occurs (.nullGuard subject body) outer sub

/-- How a part stands in an expression that is built inside the types of `ancestry`. -/
structure Nests (r : Registry) (ancestry outer : List String) (sub : Expression) : Prop where
  nodup : outer.Nodup
  new : ∀ name ∈ outer, name ∉ ancestry
  registered : outer ⊆ r.names
  construct (target : String) (arguments : List Expression) :
    sub = .construct target arguments → target ∉ ancestry ++ outer ∧
      ∃ binding path, sub = ofType r (ancestry ++ outer) target binding path
  null (name : String) : sub = .null name → name ∈ ancestry ++ outer

theorem Nests.enter (h : Nests r (ancestry ++ [type]) outer sub) (hnew : type ∉ ancestry)
    (hreg : type ∈ r.names) : Nests r ancestry (type :: outer) sub where
  nodup := List.nodup_cons.2 ⟨fun hin => h.new type hin (by simp), h.nodup⟩
  new name hin := by
    rcases List.mem_cons.1 hin with rfl | hin
    · exact hnew
    · exact fun ha => h.new name hin (List.mem_append_left _ ha)
  registered := List.cons_subset.2 ⟨hreg, h.registered⟩
  construct target arguments heq := by simpa using h.construct target arguments heq
  null name heq := by simpa using h.null name heq

/-- A part that is no object and no null place stands anywhere. -/
theorem Nests.here (hconstruct : ∀ target arguments, sub ≠ .construct target arguments)
    (hnull : ∀ name, sub = .null name → name ∈ ancestry) : Nests r ancestry [] sub where
  nodup := List.nodup_nil
  new := nofun
  registered := List.nil_subset _
  construct target arguments heq := absurd heq (hconstruct target arguments)
  null name heq := by simpa using hnull name heq

/-- A part of what may be left null stands in what is built, or is the guard itself. -/
theorem nests_of_occurs_unlessRequired (h : Occurs (unlessRequired p binding path e) outer sub)
    (he : Occurs e outer sub → Nests r ancestry outer sub) : Nests r ancestry outer sub := by
  unfold unlessRequired at h
  split at h
  · exact he h
  · cases h with
    | here => exact .here (by simp) (by simp)
    | guarded h => exact he h

/-- A part of what maps a list stands in what is built for an element, or is the map itself. -/
theorem nests_of_occurs_arrayMap {source : FieldRead}
    (h : Occurs (.arrayMap source binding e) outer sub)
    (he : Occurs e outer sub → Nests r ancestry outer sub) : Nests r ancestry outer sub := by
  cases h with
  | here => exact .here (by simp) (by simp)
  | element h => exact he h

/-- A part of an argument is the argument, or a part of the expression for its entity. -/
theorem nests_of_occurs_ofProperty (h : Occurs (ofProperty r ancestry p binding path) outer sub)
    (hnested : ∀ inner, (r.shape p).type? = some inner → inner ∉ ancestry →
      ∀ (binding : Binding) (path : List String),
        Occurs (ofType r ancestry inner binding path) outer sub → Nests r ancestry outer sub) :
    Nests r ancestry outer sub := by
  cases hs : (r.shape p).type? with
  | none =>
      rw [ofProperty_eq] at h
      cases hshape : r.shape p with
      | plain =>
          rw [hshape] at h
          cases h
          exact .here (by simp) (by simp)
      | entity inner => simp [hshape, Shape.type?] at hs
      | entities inner => simp [hshape, Shape.type?] at hs
  | some inner =>
      by_cases hin : inner ∈ ancestry
      · rw [ofProperty_of_mem hs hin] at h
        cases h
        refine .here (by simp) fun name heq => ?_
        obtain rfl := null.inj heq
        exact hin
      · rw [ofProperty_eq] at h
        cases hshape : r.shape p with
        | plain => simp [hshape, Shape.type?] at hs
        | entity type =>
            obtain rfl : type = inner := by simpa [hshape, Shape.type?] using hs
            simp only [hshape, List.contains_iff_mem, hin, if_false] at h
            exact nests_of_occurs_unlessRequired h (hnested _ hs hin _ _)
        | entities type =>
            obtain rfl : type = inner := by simpa [hshape, Shape.type?] using hs
            simp only [hshape, List.contains_iff_mem, hin, if_false] at h
            exact nests_of_occurs_unlessRequired h fun h =>
              nests_of_occurs_arrayMap h (hnested _ hs hin _ _)

/-- No part of the expression for a type stands inside the same type twice. -/
theorem nests_of_occurs_ofType (hnew : type ∉ ancestry)
    (h : Occurs (ofType r ancestry type binding path) outer sub) : Nests r ancestry outer sub := by
  induction ancestry, type using nested_induction (r := r) generalizing binding path outer sub with
  | h ancestry type ih =>
      rw [ofType_eq hnew] at h
      cases h with
      | here =>
          rw [← ofType_eq hnew]
          refine ⟨List.nodup_nil, nofun, List.nil_subset _, fun target arguments heq => ?_, ?_⟩
          · rw [ofType_eq hnew] at heq
            obtain ⟨rfl, -⟩ := construct.inj heq
            exact ⟨by simpa using hnew, binding, path, by rw [List.append_nil]⟩
          · rw [ofType_eq hnew]
            exact nofun
      | argument he h =>
          obtain ⟨p, hp, rfl⟩ := List.mem_map.1 he
          refine Nests.enter ?_ hnew (Registry.mem_names_of_mem_propertiesOf hp)
          exact nests_of_occurs_ofProperty h fun inner hs hin binding path =>
            ih hnew p hp inner hs hin hin

/-- A part of the expression for a response is built inside the types around it. -/
theorem nests_of_occurs_ofResponse {isArray : Bool}
    (h : Occurs (ofResponse r type isArray) outer sub) : Nests r [] outer sub := by
  unfold ofResponse synthesize at h
  cases isArray with
  | false => exact nests_of_occurs_ofType List.not_mem_nil h
  | true => exact nests_of_occurs_arrayMap h (nests_of_occurs_ofType List.not_mem_nil)

/-- An argument is null exactly if the entity of its property is being built further outside, and
names that entity. -/
theorem ofProperty_eq_null_iff {name : String} :
    ofProperty r ancestry p binding path = .null name ↔
      (r.shape p).type? = some name ∧ name ∈ ancestry := by
  constructor
  · intro h
    have hs : (r.shape p).type? = some name := by
      rw [← type?_ofProperty r ancestry p binding path, h, type?]
    refine ⟨hs, ?_⟩
    by_contra hin
    have hnests : Nests r ancestry [] (ofProperty r ancestry p binding path) :=
      nests_of_occurs_ofProperty (.here _) fun inner _ hnew _ _ => nests_of_occurs_ofType hnew
    exact hin (by simpa using hnests.null name h)
  · rintro ⟨hs, hin⟩
    exact ofProperty_of_mem hs hin

/-- The expression for a response is what the rules come to, whatever registry they are given.  Its
types are built at most once on the way to any part, so no part lies deeper than there are
registered names.  It is not null itself, null stands only inside the object of the type that it
names, and an argument is null exactly if the entity of its property is the type of its object or
of one further outside. -/
theorem ofResponse_cuts_recursion (r : Registry) (type : String) (isArray : Bool) :
    (∀ e, BuildsResponse r type isArray e ↔ e = ofResponse r type isArray) ∧
    (∀ name, ofResponse r type isArray ≠ .null name) ∧
    (∀ outer sub, Occurs (ofResponse r type isArray) outer sub →
      outer.Nodup ∧ outer.length ≤ r.names.length ∧ ∀ name, sub = .null name → name ∈ outer) ∧
    ∀ outer target arguments,
      Occurs (ofResponse r type isArray) outer (.construct target arguments) →
      (outer ++ [target]).Nodup ∧
      List.Forall₂ (fun p argument => ∀ name, argument = .null name ↔
        (r.shape p).type? = some name ∧ name ∈ outer ++ [target])
        (r.propertiesOf target) arguments := by
  refine ⟨fun e => buildsResponse_iff, fun name h => ?root, fun outer sub h => ?part,
    fun outer target arguments h => ?object⟩
  case root =>
    have hnests : Nests r [] [] (ofResponse r type isArray) := nests_of_occurs_ofResponse (.here _)
    simpa using hnests.null name h
  case part =>
    have hnests := nests_of_occurs_ofResponse h
    exact ⟨hnests.nodup, (List.subperm_of_subset hnests.nodup hnests.registered).length_le,
      fun name hname => by simpa using hnests.null name hname⟩
  case object =>
    have hnests := nests_of_occurs_ofResponse h
    obtain ⟨hnew, binding, path, heq⟩ := hnests.construct target arguments rfl
    rw [List.nil_append] at hnew heq
    refine ⟨by simpa using List.Nodup.concat hnew hnests.nodup, ?_⟩
    rw [ofType_eq hnew] at heq
    obtain ⟨-, rfl⟩ := construct.inj heq
    rw [List.forall₂_map_right_iff, List.forall₂_same]
    exact fun p _ name => ofProperty_eq_null_iff

/-- Keepers have pets, and pets have friends and a keeper. -/
def keepers : Registry := ⟨[
  { name := "Keeper", properties := [
    { name := "pets", type := "array", items := some "Pet", required := true }] },
  { name := "Pet", properties := [
    { name := "name", type := "string" },
    { name := "friends", type := "array", items := some "Pet" },
    { name := "keeper", type := "Keeper" }] }]⟩

/-- The arguments for a pet that is built inside its keeper. -/
def keptPet : List Expression :=
  [.field ⟨.element 2, ["name"], true⟩, .null "Pet", .null "Keeper"]

theorem occurs_keptPet :
    Occurs (ofResponse keepers "Keeper" true) ["Keeper"] (.construct "Pet" keptPet) := by
  have h : ofResponse keepers "Keeper" true = .arrayMap ⟨.response, [], false⟩ (.element 1)
      (.construct "Keeper" [.arrayMap ⟨.element 1, ["pets"], false⟩ (.element 2)
        (.construct "Pet" keptPet)]) := by
    cbv
  rw [h]
  exact .element (.argument List.mem_cons_self (.element (.here _)))

/-- Inside its keeper a pet has an argument for each of its properties; friends and keeper are null
since a pet and a keeper are being built, and the name is not. -/
theorem ofResponse_cuts_recursion_keepers :
    Occurs (ofResponse keepers "Keeper" true) ["Keeper"] (.construct "Pet" keptPet) ∧
    List.Forall₂ (fun p argument => ∀ name, argument = .null name ↔
      (keepers.shape p).type? = some name ∧ name ∈ ["Keeper", "Pet"])
      (keepers.propertiesOf "Pet") keptPet := by
  obtain ⟨-, -, -, hobject⟩ := ofResponse_cuts_recursion keepers "Keeper" true
  exact ⟨occurs_keptPet, (hobject _ _ _ occurs_keptPet).2⟩

end OpenApiClient.Expression
