import OpenApiClient.Proofs.Completeness
import OpenApiClient.Proofs.Precedence
import Mathlib.Data.List.Count

/-!
# What a fresh entity records

While an entity is made, the schemas that it refers to are made into entities too, and one of
them may carry the same name: then the entity gets the properties of both.  As long as no other
schema is made under the name, walks further in can only be ahead of the walk further out, along
the same contributions.  So when the outermost walk comes to its end, the entity has the
properties of one composition, and of that one it has all.
-/

namespace OpenApiClient

open Walk

/-- Nothing has been made under a name. -/
structure Build.IsFresh (b : Build) (name : String) : Prop where
  registry : b.registry.contains name = false
  completed (schema : Value) : (name, schema) ∉ b.completed

/-- At most one schema has been used up under a name. -/
def Build.UsesOnly (b : Build) (name : String) (schema : Value) : Prop :=
  ∀ used, (name, used) ∈ b.completed → used = schema

/-- The properties of an entity are those that a beginning of a composition makes. -/
def Registry.Begins (doc : Document) (name : String) (schema : Value) (r : Registry) : Prop :=
  ∃ begun, begun <+: Schema.closure doc schema ∧ r.propertiesOf name = Schema.propertiesOf doc begun

variable {doc : Document} {name : String} {schema : Value}

theorem Build.UsesOnly.of_suffix {b b' : Build} (h : b'.UsesOnly name schema)
    (hsuffix : b.completed <:+ b'.completed) : b.UsesOnly name schema :=
  fun used hused => h used (hsuffix.subset hused)

theorem Registry.Begins.congr {r r' : Registry} (h : r.Begins doc name schema)
    (heq : r'.propertiesOf name = r.propertiesOf name) : r'.Begins doc name schema := by
  obtain ⟨begun, hbegun, hps⟩ := h
  exact ⟨begun, hbegun, heq.trans hps⟩

/-- How far an entity has come while the contributions to an entity are made, which may be the
same one. -/
structure Proceeds (doc : Document) (name : String) (schema : Value) (other : String)
    (done : List Schema.Contribution) (b : Build) : Prop where
  begins : b.registry.Begins doc name schema
  registered : b.registry.contains other = true
  properties : other = name → Schema.propertiesOf doc done <+: b.registry.propertiesOf name

namespace Proceeds

variable {room ancestry : List String} {other : String} {part : Value}
  {done : List Schema.Contribution} {c : Schema.Contribution} {b b' : Build}

theorem mono (h : Proceeds doc name schema other done b) (hg : b.Grows b')
    (hbegins : b'.registry.Begins doc name schema) :
    Proceeds doc name schema other done b' where
  begins := hbegins
  registered := hg.registry.contains h.registered
  properties heq := (h.properties heq).trans (hg.registry.propertiesOf name)

theorem contribute (hpart : other = name → part = schema)
    (hdone : done ++ [c] <+: Schema.closure doc part) (h : Proceeds doc name schema other done b)
    (hreg : b'.registry = b.registry.contribute doc other c) :
    Proceeds doc name schema other (done ++ [c]) b' := by
  have hcontains : b'.registry.contains other = true :=
    hreg ▸ (b.registry.grows_contribute other c).contains h.registered
  by_cases heq : other = name
  · obtain rfl := hpart heq
    subst heq
    obtain ⟨begun, hbegun, hps⟩ := h.begins
    obtain ⟨begun', hbegun', heq, hahead⟩ :=
      Registry.exists_begun_contribute hdone hbegun hps (h.properties rfl)
    have hprops : b'.registry.propertiesOf other = Schema.propertiesOf doc begun' := by
      rw [hreg, b.registry.propertiesOf_contribute c h.registered, if_pos rfl, heq]
    exact ⟨⟨begun', hbegun', hprops⟩, hcontains, fun _ => hprops ▸ hahead⟩
  · refine ⟨h.begins.congr ?_, hcontains, fun hname => absurd hname heq⟩
    rw [hreg, b.registry.propertiesOf_contribute c h.registered, if_neg fun hname => heq hname.symm]

theorem extend (hpart : other = name → part = schema)
    (hdone : done ++ [c] <+: Schema.closure doc part)
    (hmake : ∀ t v b b', b.registry.Begins doc name schema → b'.UsesOnly name schema →
      Yields (Building.materialize doc (room.erase other) (ancestry ++ [other]) t v) b () b' →
      b'.registry.Begins doc name schema)
    (h : Proceeds doc name schema other done b) (honly : b'.UsesOnly name schema)
    (hstep : Yields (Building.extend (Building.follow doc room ancestry other) doc other c)
      b () b') : Proceeds doc name schema other (done ++ [c]) b' := by
  obtain ⟨-, b₁, hplain, hrefers, hcompleted, hreg⟩ := Building.yields_extend
    (fun p b t b' h => (Building.yields_follow h).imp fun _ => And.left) hstep
  suffices h₁ : Proceeds doc name schema other done b₁ from h₁.contribute hpart hdone hreg
  cases hp : c.pointer? doc with
  | none =>
      have hsame := hplain hp
      exact h.mono hsame.grows (h.begins.congr (by rw [hsame.1]))
  | some p =>
      obtain ⟨t, b₀, hfollow, hr, hcomp⟩ := hrefers p hp
      obtain ⟨v, -, hm⟩ := Building.yields_follow hfollow
      have honly₀ : b₀.UsesOnly name schema :=
        honly.of_suffix (by rw [hcompleted, hcomp])
      have hbegins := hmake t v b b₀ h.begins honly₀ hm
      have hg₀ : b.Grows b₀ := (Building.keeps_materialize doc _ _ t v).of_yields hm
      have hg₁ : b₀.Grows b₁ := by
        refine ⟨?_, hcomp ▸ List.suffix_refl _⟩
        rw [hr]
        exact b₀.registry.grows_modify other fun e => e.grows_addUse t
      refine h.mono (trans_of Build.Grows hg₀ hg₁) (hbegins.congr ?_)
      rw [hr, Registry.propertiesOf_addUse]

/-- The contributions of a schema are made one after the other. -/
theorem along (hpart : other = name → part = schema)
    (hmake : ∀ t v b b', b.registry.Begins doc name schema → b'.UsesOnly name schema →
      Yields (Building.materialize doc (room.erase other) (ancestry ++ [other]) t v) b () b' →
      b'.registry.Begins doc name schema)
    (h : Proceeds doc name schema other [] b) (honly : b'.UsesOnly name schema)
    (hwalk : Building.Extends doc room ancestry other (Schema.closure doc part) b b') :
    Proceeds doc name schema other (Schema.closure doc part) b' := by
  obtain ⟨us, hwalk⟩ := hwalk
  -- What is used up at the end is known, so it is known all along.
  refine hwalk.invariant (I := fun done b => b.UsesOnly name schema →
    Proceeds doc name schema other done b) (fun _ => h) ?_ honly
  intro done c s u s' hdone hs hstep honly'
  have hg : s.Grows s' := (Building.keeps_extend
    (fun p => Building.keeps_follow doc room ancestry other p) doc other c).of_yields hstep
  exact (hs (honly'.of_suffix hg.completed)).extend hpart hdone hmake honly' hstep

end Proceeds

/-- Whatever is made, an entity stays at a beginning of its composition. -/
theorem Registry.Begins.materialize (room ancestry : List String) (other : String) (part : Value) :
    ∀ b b', b.registry.Begins doc name schema → b'.UsesOnly name schema →
      Yields (Building.materialize doc room ancestry other part) b () b' →
      b'.registry.Begins doc name schema := by
  induction room, ancestry, other, part using Building.room_induction with
  | step room ancestry other part ih =>
      intro b b' h honly hm
      obtain ⟨-, hsame⟩ | ⟨hother, b₁, hr, hcomp, hmade⟩ := Building.yields_materialize hm
      · exact h.congr (by rw [hsame.1])
      have h₁ : b₁.registry.Begins doc name schema :=
        h.congr (by rw [hr, Registry.propertiesOf_register])
      have hreg : b₁.registry.contains other = true := by
        rw [hr, Registry.contains_register]
        simp
      obtain ⟨-, rfl⟩ | ⟨-, b₂, hwalk, rfl⟩ := hmade
      · exact h₁
      have hpart : other = name → part = schema := by
        rintro rfl
        exact honly part List.mem_cons_self
      have hstart : Proceeds doc name schema other [] b₁ := ⟨h₁, hreg, fun _ => List.nil_prefix⟩
      exact (hstart.along hpart (ih hother) (honly.of_suffix (List.suffix_cons _ _)) hwalk).begins

theorem Schema.Typing.ofItems_ne_unsupported {items description : Value} :
    ofItems doc items description ≠ .ok .unsupported := by
  intro h
  unfold ofItems at h
  split at h
  · obtain ⟨target, -, h⟩ := bind_eq_ok.1 h
    cases target <;> cases h
  · split at h <;> cases h

namespace Building

variable {room ancestry : List String} {b b' : Build}

/-- No property is made only where the shape of a schema is not supported. -/
theorem not_isSupported_of_yields_makeProperty {refer : Value → Building String} {entity : String}
    {key : Scalar} {part : Value} {required : Bool}
    (h : Yields (makeProperty refer doc entity key part required) b none b') :
    ¬ Schema.IsSupported part := by
  rintro hsupported
  unfold makeProperty at h
  split at h
  · next hmap =>
      have hnomap : part.isMap = false := by simpa using hmap
      rcases hsupported with ⟨pointer, hr⟩ | ⟨type, ht⟩
      · cases part with
        | map => cases hnomap
        | _ => cases hr
      · cases part with
        | map => cases hnomap
        | _ => cases ht
  · obtain ⟨t, b₁, hlift, h₁⟩ := yields_bind.1 h
    obtain ⟨ht, rfl⟩ := yields_lift.1 hlift
    cases t with
    | unsupported =>
        unfold Schema.Typing.ofSchema at ht
        split at ht
        · obtain ⟨target, -, ht⟩ := bind_eq_ok.1 ht
          cases target <;> cases ht
        · next hr =>
            rcases hsupported with ⟨pointer, href⟩ | ⟨type, htype⟩
            · cases hr.symm.trans href
            · rw [htype] at ht
              dsimp only at ht
              split at ht
              · exact Schema.Typing.ofItems_ne_unsupported ht
              · cases ht
    | plain type format description items =>
        obtain ⟨q, -, hq⟩ := yields_map.1 h₁
        cases hq
    | entity pointer description =>
        obtain ⟨target, b₂, -, h₂⟩ := yields_bind.1 h₁
        obtain ⟨_, b₃, -, h₃⟩ := yields_bind.1 h₂
        obtain ⟨q, -, hq⟩ := yields_map.1 h₃
        cases hq
    | entities pointer description =>
        obtain ⟨target, b₂, -, h₂⟩ := yields_bind.1 h₁
        obtain ⟨_, b₃, -, h₃⟩ := yields_bind.1 h₂
        obtain ⟨q, -, hq⟩ := yields_map.1 h₃
        cases hq

/-- A walk that comes to its end has made everything that can be made. -/
theorem allMade_of_extends {cs : List Schema.Contribution}
    (h : Extends doc room ancestry name cs b b') :
    (∀ f, .failure f ∉ cs) ∧ Schema.AllMade doc cs := by
  have hrefer : ∀ p b t b', Yields (follow doc room ancestry name p) b t b' →
      ∃ v, doc.entity? p = some (t, v) := fun p b t b' h => (yields_follow h).imp fun _ => And.left
  obtain ⟨us, hwalk⟩ := h
  have hsteps : List.Forall₂ (fun c _ => (∀ f, c ≠ .failure f) ∧ Schema.AllMade doc [c]) cs us := by
    refine hwalk.forall₂ (P := fun _ (c : Schema.Contribution) (_ : Unit) =>
      (∀ f, c ≠ .failure f) ∧ Schema.AllMade doc [c]) ?_ fun _ _ _ _ _ _ _ h => h
    refine fun c s u s' hstep => ⟨(yields_extend hrefer hstep).1, ?_⟩
    rintro key part required hc hsupported
    obtain rfl := List.mem_singleton.1 hc
    rw [extend_property] at hstep
    obtain ⟨made, s₁, hmade, -⟩ := yields_bind.1 hstep
    cases made with
    | none => exact absurd hsupported (not_isSupported_of_yields_makeProperty hmade)
    | some p => exact ⟨p, property?_of_yields_makeProperty hrefer hmade⟩
  constructor
  · intro f hf
    obtain ⟨u, -, hno, -⟩ := exists_right_of_forall₂ hsteps hf
    exact hno f rfl
  · intro key part required hc
    obtain ⟨u, -, -, hmade⟩ := exists_right_of_forall₂ hsteps hc
    exact hmade key part required (List.mem_singleton_self _)

theorem le_count_roomFor (doc : Document) (name : String) (schema : Value) :
    expansions ≤ (roomFor doc name schema).count name := by
  have hsublist : (List.replicate expansions name).Sublist (roomFor doc name schema) := by
    refine List.sublist_flatten_of_mem (List.mem_map.2 ⟨name, ?_, rfl⟩)
    rw [List.mem_eraseDups]
    exact List.mem_cons_self
  calc expansions = (List.replicate expansions name).count name := by simp
    _ ≤ (roomFor doc name schema).count name := hsublist.count_le name

/-- What a fresh entity records, when it has been made of a schema and of no other one: all
properties that the schema makes. -/
theorem propertiesOf_of_isFresh (hroom : ancestry.count name < expansions)
    (hfresh : b.IsFresh name) (honly : b'.UsesOnly name schema)
    (h : Yields (ofSchema doc name schema ancestry) b () b') :
    b'.registry.contains name = true ∧
      b'.registry.propertiesOf name = Schema.propertiesOf doc (Schema.closure doc schema) ∧
      (∀ f, .failure f ∉ Schema.closure doc schema) ∧
      Schema.AllMade doc (Schema.closure doc schema) := by
  have hin : name ∈ ancestry.foldl List.erase (roomFor doc name schema) := by
    rw [← List.diff_eq_foldl, ← List.count_pos_iff, List.count_diff]
    have := le_count_roomFor doc name schema
    omega
  obtain ⟨hout, -⟩ | ⟨-, b₁, hr, hcomp, hmade⟩ := yields_materialize h
  · exact absurd hin hout
  obtain ⟨hused, -⟩ | ⟨-, b₂, hwalk, rfl⟩ := hmade
  · exact absurd hused (hfresh.completed schema)
  have hreg : b₁.registry.contains name = true := by
    rw [hr, Registry.contains_register]
    simp
  have hnone : b.registry.propertiesOf name = [] := by
    have hget : b.registry.get? name = none := by simpa [Registry.contains] using hfresh.registry
    rw [Registry.propertiesOf, hget]
    rfl
  have hbegins : b₁.registry.Begins doc name schema := by
    refine ⟨[], List.nil_prefix, ?_⟩
    rw [hr, Registry.propertiesOf_register, hnone]
    rfl
  have hstart : Proceeds doc name schema name [] b₁ := ⟨hbegins, hreg, fun _ => List.nil_prefix⟩
  have hend := hstart.along (fun _ => rfl)
    (fun t v b b' => Registry.Begins.materialize _ _ t v b b')
    (honly.of_suffix (List.suffix_cons _ _)) hwalk
  obtain ⟨begun, hbegun, hps⟩ := hend.begins
  have hall := hend.properties rfl
  rw [hps] at hall
  have heq := (Schema.propertiesOf_mono doc hbegun).eq_of_length_le hall.length_le
  exact ⟨hend.registered, hps.trans heq, allMade_of_extends hwalk⟩

/-- A fresh entity that is made of a schema, and of no other one, records a property of every name
that some part of the schema declares with a supported shape, and of no other name.  Each of them
is one that such a part declares.  In a composition that goes nowhere round in circles, a name has
the property that the schema supplies: that of its first member that offers the name, or else its
own. -/
theorem records_composition (hroom : ancestry.count name < expansions) (hfresh : b.IsFresh name)
    (honly : b'.UsesOnly name schema) (h : Yields (ofSchema doc name schema ancestry) b () b') :
    ∃ e, b'.registry.get? name = some e ∧ (e.properties.map (·.name)).Nodup ∧
      (∀ n, n ∈ e.properties.map (·.name) ↔ Schema.Offers doc schema n) ∧
      (∀ p ∈ e.properties, ∃ key part required, Schema.Spells key p.name ∧
        Schema.Declares doc schema key part required ∧
        (Schema.Contribution.property key part required).property? doc = some p) ∧
      (Schema.IsAcyclic doc schema →
        ∀ p, p ∈ e.properties ↔ Schema.Supplies doc schema p.name p) := by
  obtain ⟨hcontains, hproperties, hno, hmade⟩ := propertiesOf_of_isFresh hroom hfresh honly h
  obtain ⟨e, he⟩ := Option.isSome_iff_exists.1 hcontains
  have heq : e.properties = Schema.propertiesOf doc (Schema.closure doc schema) := by
    rw [← hproperties, Registry.propertiesOf, he]
    rfl
  have hmem : ∀ p, p ∈ e.properties ↔
      Schema.first? doc (Schema.closure doc schema) p.name = some p := fun p => by
    rw [heq]
    exact Property.mem_firstOfEach
  have hdeclared : ∀ p ∈ e.properties, ∃ key part required, Schema.Spells key p.name ∧
      Schema.Declares doc schema key part required ∧ Schema.IsSupported part ∧
      (Schema.Contribution.property key part required).property? doc = some p := by
    intro p hp
    obtain ⟨before, c, after, hclosure, hc, -⟩ := Schema.first?_eq_some_iff.1 ((hmem p).1 hp)
    obtain ⟨key, part, required, rfl, hkey, hsupported⟩ :=
      Schema.Contribution.exists_of_property? hc
    have hin : .property key part required ∈ Schema.closure doc schema := by
      rw [hclosure]
      simp
    exact ⟨key, part, required, hkey, (Schema.mem_closure_iff hno).1 hin, hsupported, hc⟩
  refine ⟨e, he, ?_, fun n => ?_, fun p hp => ?_, fun hacyclic p => ?_⟩
  · rw [heq]
    exact Property.nodup_firstOfEach _
  · constructor
    · intro hn
      obtain ⟨p, hp, rfl⟩ := List.mem_map.1 hn
      obtain ⟨key, part, required, hkey, hdeclares, hsupported, -⟩ := hdeclared p hp
      exact ⟨key, part, required, hkey, hdeclares, hsupported⟩
    · rintro ⟨key, part, required, hkey, hdeclares, hsupported⟩
      have hin := (Schema.mem_closure_iff hno).2 hdeclares
      obtain ⟨p, hp⟩ := hmade _ _ _ hin hsupported
      obtain rfl := Schema.name_of_property? hp hkey
      have hsome : Schema.first? doc (Schema.closure doc schema) p.name ≠ none := fun hnone =>
        Schema.first?_eq_none_iff.1 hnone _ hin p hp rfl
      obtain ⟨q, hq⟩ := Option.ne_none_iff_exists'.1 hsome
      obtain ⟨_, _, _, _, _, hname, -⟩ := Schema.first?_eq_some_iff.1 hq
      exact List.mem_map.2 ⟨q, (hmem q).2 (hname ▸ hq), hname⟩
  · obtain ⟨key, part, required, hkey, hdeclares, -, hp⟩ := hdeclared p hp
    exact ⟨key, part, required, hkey, hdeclares, hp⟩
  · rw [hmem]
    exact (Schema.lists_closure hno).first?_eq_some_iff ((Schema.isAcyclic_iff hno).1 hacyclic)
      hmade p.name p

/-- A pet is an animal in two ways, one of them by another name for an animal; its owner refers
back to it. -/
def petFamily : Document := .ofValue <| .map 0 [(.str "components", .map 1 [(.str "schemas",
  .map 2 [
    (.str "Animal", .map 3 [(.str "properties", .map 4 [
      (.str "name", .map 5 [(.str "type", .str "string")]),
      (.str "id", .map 6 [(.str "type", .str "integer")])])]),
    (.str "Creature", Schema.referenceTo (.str "#/components/schemas/Animal")),
    (.str "Pet", .map 7 [
      (.str "allOf", .seq [
        Schema.referenceTo (.str "#/components/schemas/Creature"),
        .map 8 [
          (.str "allOf", .seq [Schema.referenceTo (.str "#/components/schemas/Animal")]),
          (.str "properties", .map 9 [
            (.str "name", .map 10 [(.str "type", .str "boolean")]),
            (.str "tag", .map 11 [(.str "type", .str "string")])])]]),
      (.str "properties", .map 12 [
        (.str "id", .map 13 [(.str "type", .str "string")]),
        (.str "owner", Schema.referenceTo (.str "#/components/schemas/Owner"))])]),
    (.str "Owner", .map 14 [(.str "properties", .map 15 [
      (.str "pet", Schema.referenceTo (.str "#/components/schemas/Pet"))])])])])]

def petSchema : Value :=
  ((petFamily.entity? (.str "#/components/schemas/Pet")).map (·.2)).getD .null

theorem closure_petSchema : (Schema.closure petFamily petSchema).all
    (fun c => c matches .property _ _ _) = true := by
  decide +kernel

theorem completed_petFamily :
    ∀ used ∈ (outcome (ofSchema petFamily "Pet" petSchema []) {}).2.completed,
      used.1 = "Pet" → used.2 = petSchema := by
  decide +kernel

theorem types_petFamily :
    ((outcome (ofSchema petFamily "Pet" petSchema []) {}).2.registry.get? "Pet").map
      (fun e => e.properties.map fun p => (p.name, p.type)) =
      some [("name", "string"), ("id", "integer"), ("tag", "string"), ("owner", "Owner")] := by
  decide +kernel

/-- A pet has the name and the number of an animal, whatever it says of them itself. -/
theorem records_petFamily : ∃ b' e,
    Yields (ofSchema petFamily "Pet" petSchema []) {} () b' ∧ b'.registry.get? "Pet" = some e ∧
    (e.properties.map fun p => (p.name, p.type)) =
      [("name", "string"), ("id", "integer"), ("tag", "string"), ("owner", "Owner")] ∧
    (∀ n, n ∈ e.properties.map (·.name) ↔ Schema.Offers petFamily petSchema n) ∧
    ∀ p, p ∈ e.properties ↔ Schema.Supplies petFamily petSchema p.name p := by
  have h := yields_outcome (m := ofSchema petFamily "Pet" petSchema []) (s := {}) (a := ())
    (by decide +kernel)
  have hplain := List.all_eq_true.1 closure_petSchema
  have hno : ∀ f, .failure f ∉ Schema.closure petFamily petSchema := fun f hf => by
    simpa using hplain _ hf
  have hacyclic : Schema.IsAcyclic petFamily petSchema :=
    (Schema.isAcyclic_iff hno).2 fun p hp => by simpa using hplain _ hp
  obtain ⟨e, he, -, hnames, -, hsupplies⟩ := records_composition (by decide)
    ⟨by decide, fun _ => List.not_mem_nil⟩ (fun used hused => completed_petFamily _ hused rfl) h
  have htypes := types_petFamily
  rw [he] at htypes
  exact ⟨_, e, h, he, Option.some.inj htypes, hnames, hsupplies hacyclic⟩

end Building

end OpenApiClient
