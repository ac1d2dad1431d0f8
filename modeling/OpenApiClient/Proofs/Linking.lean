import OpenApiClient.Proofs.Assembly
import OpenApiClient.Proofs.Completeness
import OpenApiClient.Proofs.Reflection

/-!
# What is referred to is registered

A walk may come to a name without making an entity of it: its schema is used up, or there is no
room left for the name.  In the first case the name has been registered before, and in the second
one the entity is being made further outside, so it has been registered as well.  What a schema
refers to is therefore registered as soon as the reference has been followed, and every property
is declared by a schema that is used up or about to be.

As long as nothing fails, a library is made in steps that leave no entity half made: an entity is
made from a pointer, or a name is registered.  What these steps hand on holds in the end.
-/

namespace OpenApiClient

open Walk

variable {doc : Document}

/-- A contribution is no failure, and what it refers to is registered. -/
structure Registry.Knows (doc : Document) (r : Registry) (c : Schema.Contribution) : Prop where
  no_failure : ∀ f, c ≠ .failure f
  registered : ∀ p, c.pointer? doc = some p →
    ∃ t v, doc.entity? p = some (t, v) ∧ r.contains t = true

theorem Registry.Knows.mono {r r' : Registry} {c : Schema.Contribution} (h : r.Knows doc c)
    (hg : r.Grows r') : r'.Knows doc c := by
  refine ⟨h.no_failure, fun p hp => ?_⟩
  obtain ⟨t, v, ht, hreg⟩ := h.registered p hp
  exact ⟨t, v, ht, hg.contains hreg⟩

namespace Build

/-- Each property is declared by a schema that is used up for its entity or is being used, and what
the schemas that are used up refer to is registered. -/
structure Linked (doc : Document) (opened : List (String × Value)) (b : Build) : Prop where
  made (name : String) : ∀ p ∈ b.registry.propertiesOf name, ∃ v,
    ((name, v) ∈ opened ∨ (name, v) ∈ b.completed) ∧ Schema.Makes doc v p
  known : ∀ used ∈ b.completed, ∀ c ∈ Schema.closure doc used.2, b.registry.Knows doc c

namespace Linked

variable {opened : List (String × Value)} {room ancestry : List String} {name : String}
  {schema : Value} {b b' : Build}

theorem empty : Linked doc [] {} where
  made _ := nofun
  known := nofun

theorem congr (h : b.Linked doc opened) (hg : b.Grows b') (hcompleted : b'.completed = b.completed)
    (heq : ∀ other, b'.registry.propertiesOf other = b.registry.propertiesOf other) :
    b'.Linked doc opened where
  made other p hp := by
    rw [hcompleted]
    exact h.made other p (heq other ▸ hp)
  known used hused c hc := (h.known used (hcompleted ▸ hused) c hc).mono hg.registry

theorem of_same (h : b.Linked doc opened) (hsame : b.Same b') : b'.Linked doc opened :=
  h.congr hsame.grows hsame.2 fun other => by rw [hsame.1]

theorem register (h : b.Linked doc opened) (hr : b'.registry = b.registry.register name)
    (hcompleted : b'.completed = b.completed) : b'.Linked doc opened :=
  h.congr ⟨hr ▸ b.registry.grows_register name, hcompleted ▸ List.suffix_refl _⟩ hcompleted
    fun other => by rw [hr, Registry.propertiesOf_register]

theorem enter (h : b.Linked doc opened) (used : String × Value) :
    b.Linked doc (used :: opened) where
  made other p hp := by
    obtain ⟨v, hv, hmakes⟩ := h.made other p hp
    exact ⟨v, hv.imp_left (List.mem_cons_of_mem _), hmakes⟩
  known := h.known

/-- A schema that is being used declares the property that it contributes. -/
theorem contribute {c : Schema.Contribution} (h : b.Linked doc opened)
    (hopened : (name, schema) ∈ opened) (hc : c ∈ Schema.closure doc schema)
    (hreg : b.registry.contains name = true)
    (hr : b'.registry = b.registry.contribute doc name c)
    (hcompleted : b'.completed = b.completed) : b'.Linked doc opened := by
  have hg : b.registry.Grows b'.registry := hr ▸ b.registry.grows_contribute name c
  refine ⟨fun other p hp => ?_, fun used hused c' hc' => ?_⟩
  · rw [hcompleted]
    rw [hr, Registry.propertiesOf_contribute _ c hreg] at hp
    split at hp
    · next hother =>
        subst hother
        cases hq : c.property? doc with
        | none =>
            rw [hq] at hp
            exact h.made other p hp
        | some q =>
            rw [hq] at hp
            rcases Property.mem_addTo hp with hp | rfl
            · exact h.made other p hp
            · exact ⟨schema, .inl hopened, Schema.makes_of_property? hc hq⟩
    · exact h.made other p hp
  · exact (h.known used (hcompleted ▸ hused) c' hc').mono hg

theorem useUp (h : b.Linked doc ((name, schema) :: opened))
    (hknown : ∀ c ∈ Schema.closure doc schema, b.registry.Knows doc c) :
    Linked doc opened { b with completed := (name, schema) :: b.completed } where
  made other p hp := by
    obtain ⟨v, hv, hmakes⟩ := h.made other p hp
    refine ⟨v, ?_, hmakes⟩
    rw [List.mem_cons] at hv ⊢
    tauto
  known used hused c hc := by
    rcases List.mem_cons.1 hused with rfl | hused
    · exact hknown c hc
    · exact h.known used hused c hc

/-- Extending an entity registers what the contribution refers to, if making entities registers
them or finds them among those that are being made. -/
theorem extend {p₀ : Value} {c : Schema.Contribution}
    (hcover : Covers doc (room.erase name) (ancestry ++ [name]))
    (he : doc.entity? p₀ = some (name, schema)) (hc : c ∈ Schema.closure doc schema)
    (hmake : ∀ t w b b', (∃ p, doc.entity? p = some (t, w)) →
      (t ∈ room.erase name ∨ t ∈ ancestry ++ [name]) →
      (∀ n ∈ ancestry ++ [name], b.registry.contains n = true) → b.Linked doc opened →
      Yields (Building.materialize doc (room.erase name) (ancestry ++ [name]) t w) b () b' →
      b'.Linked doc opened ∧ b'.registry.contains t = true)
    (hopened : (name, schema) ∈ opened)
    (houter : ∀ n ∈ ancestry ++ [name], b.registry.contains n = true) (h : b.Linked doc opened)
    (hstep : Yields (Building.extend (Building.follow doc room ancestry name) doc name c)
      b () b') : b'.Linked doc opened ∧ b'.registry.Knows doc c := by
  obtain ⟨hno, b₁, hplain, hrefers, hcompleted, hreg⟩ := Building.yields_extend
    (fun p b t b' h => (Building.yields_follow h).imp fun _ => And.left) hstep
  suffices h₁ : b.Grows b₁ ∧ b₁.Linked doc opened ∧ b₁.registry.Knows doc c by
    have hname := h₁.1.registry.contains (houter name (by simp))
    refine ⟨h₁.2.1.contribute hopened hc hname hreg hcompleted, h₁.2.2.mono ?_⟩
    exact hreg ▸ b₁.registry.grows_contribute name c
  cases hp : c.pointer? doc with
  | none =>
      have hsame := hplain hp
      refine ⟨hsame.grows, h.of_same hsame, hno, fun p hp' => ?_⟩
      cases hp.symm.trans hp'
  | some p =>
      obtain ⟨t, b₀, hfollow, hr, hcomp⟩ := hrefers p hp
      obtain ⟨w, ht, hm⟩ := Building.yields_follow hfollow
      obtain ⟨h₀, hknown⟩ :=
        hmake t w b b₀ ⟨p, ht⟩ (hcover.of_pointer? he hc hp ht) houter h hm
      have hg₀ : b.Grows b₀ := (Building.keeps_materialize doc _ _ t w).of_yields hm
      have hg : b₀.Grows b₁ := by
        refine ⟨?_, hcomp ▸ List.suffix_refl _⟩
        rw [hr]
        exact b₀.registry.grows_modify name fun e => e.grows_addUse t
      refine ⟨trans_of Build.Grows hg₀ hg, h₀.congr hg hcomp fun other => ?_, hno, fun q hq => ?_⟩
      · rw [hr, Registry.propertiesOf_addUse]
      · obtain rfl := Option.some.inj (hp.symm.trans hq)
        exact ⟨t, w, ht, hg.registry.contains hknown⟩

/-- An entity is registered by being made, or it is being made further outside. -/
theorem materialize (room ancestry : List String) (name : String) (schema : Value) :
    ∀ opened b b', Covers doc room ancestry → (∃ p, doc.entity? p = some (name, schema)) →
      (name ∈ room ∨ name ∈ ancestry) → (∀ n ∈ ancestry, b.registry.contains n = true) →
      b.Linked doc opened →
      Yields (Building.materialize doc room ancestry name schema) b () b' →
      b'.Linked doc opened ∧ b'.registry.contains name = true := by
  induction room, ancestry, name, schema using Building.room_induction with
  | step room ancestry name schema ih =>
      intro opened b b' hcover ⟨p₀, he⟩ hroom houter hb h
      obtain ⟨hout, hsame⟩ | ⟨hname, b₁, hr, hcomp, hmade⟩ := Building.yields_materialize h
      · -- The walk turns back, because the entity is being made further outside.
        refine ⟨hb.of_same hsame, ?_⟩
        rw [hsame.1]
        exact houter name (hroom.resolve_left hout)
      have h₁ : b₁.Linked doc opened := hb.register hr hcomp
      have hreg : b₁.registry.contains name = true := by
        rw [hr, Registry.contains_register]
        simp
      have houter₁ : ∀ n ∈ ancestry ++ [name], b₁.registry.contains n = true := by
        intro n hn
        rcases List.mem_append.1 hn with hn | hn
        · exact hr ▸ (b.registry.grows_register name).contains (houter n hn)
        · rwa [List.mem_singleton.1 hn]
      obtain ⟨-, rfl⟩ | ⟨-, b₂, ⟨us, hwalk⟩, rfl⟩ := hmade
      · exact ⟨h₁, hreg⟩
      · -- What has been walked so far is known; the schema itself is still being used.
        obtain ⟨hlinked, hgrows, hknown⟩ := hwalk.invariant
          (I := fun done s => s.Linked doc ((name, schema) :: opened) ∧ b₁.Grows s ∧
            ∀ c ∈ done, s.registry.Knows doc c)
          ⟨h₁.enter _, refl_of Build.Grows _, nofun⟩
          fun done c s u s' hdone ⟨hs, hgrows, hknown⟩ hstep => by
            have hg : s.Grows s' := (Building.keeps_extend
              (fun p => Building.keeps_follow doc room ancestry name p) doc name c).of_yields hstep
            have hc : c ∈ Schema.closure doc schema := hdone.subset (by simp)
            obtain ⟨hs', hc'⟩ := hs.extend hcover.enter he hc
              (fun t w b b' hw ht => ih hname t w _ b b' hcover.enter hw ht) List.mem_cons_self
              (fun n hn => hgrows.registry.contains (houter₁ n hn)) hstep
            refine ⟨hs', trans_of Build.Grows hgrows hg, fun d hd => ?_⟩
            rcases List.mem_append.1 hd with hd | hd
            · exact (hknown d hd).mono hg.registry
            · rwa [List.mem_singleton.1 hd]
        exact ⟨hlinked.useUp hknown, hgrows.registry.contains hreg⟩

theorem ofPointer {p : Value} (h : b.Linked doc opened)
    (hm : Yields (Building.ofPointer doc p []) b name b') : b'.Linked doc opened := by
  obtain ⟨v, hv, hm⟩ := Building.yields_ofPointer hm
  exact (materialize _ [] name v opened b b' (Covers.roomFor doc name v) ⟨p, hv⟩
    (.inl (Building.mem_roomFor doc name v)) (fun _ => nofun) h hm).1

end Linked

/-- One step of a run that does not fail: an entity is made from a pointer, or a name is registered,
or something is noted. -/
inductive Step (doc : Document) (b b' : Build) : Prop
  | same (h : b.Same b')
  | register {name : String} (hr : b'.registry = b.registry.register name)
      (hcompleted : b'.completed = b.completed)
  | make {pointer : Value} {name : String}
      (h : Yields (Building.ofPointer doc pointer []) b name b')

def Run (doc : Document) : Build → Build → Prop := Relation.ReflTransGen (Step doc)

instance : IsPreorder Build (Run doc) where
  refl _ := .refl
  trans _ _ _ := .trans

theorem Linked.of_step {opened : List (String × Value)} {b b' : Build}
    (h : b.Linked doc opened) (hstep : b.Step doc b') : b'.Linked doc opened := by
  cases hstep with
  | same hsame => exact h.of_same hsame
  | register hr hcompleted => exact h.register hr hcompleted
  | make hm => exact h.ofPointer hm

theorem Linked.of_run {opened : List (String × Value)} {b b' : Build} (h : b.Linked doc opened)
    (hrun : b.Run doc b') : b'.Linked doc opened := by
  induction hrun with
  | refl => exact h
  | tail _ hstep ih => exact ih.of_step hstep

end Build

/-- A walk that makes entities is a run if it succeeds. -/
theorem Building.compositional_run :
    Compositional fun _ (m : Building _) => ∀ b a b', Yields m b a b' → b.Run doc b' where
  pure a b c b' h := by
    obtain ⟨-, rfl⟩ := yields_pure.1 h
    exact .refl
  throw e b c b' h := absurd h not_yields_throw
  lift x b c b' h := by
    obtain ⟨-, rfl⟩ := yields_lift.1 h
    exact .refl
  bind hm hf b c b' h := by
    obtain ⟨a, b₁, h₁, h₂⟩ := yields_bind.1 h
    exact .trans (hm b a b₁ h₁) (hf a b₁ c b' h₂)

namespace Classification

variable {strict : Bool} {c c' : Classification} {u : Unit}

theorem run_of_yields_placeOn {p : PlacedOperation} {target : ClassKind × String}
    (h : Yields (placeOn strict p target) c u c') : c.build.Run doc c'.build := by
  obtain ⟨-, -, hcompleted, hregistry⟩ := exists_of_yields_placeOn h
  split at hregistry
  · exact .single (.register hregistry hcompleted)
  · exact .single (.same ⟨hregistry, hcompleted⟩)

theorem run_of_yields_addOperation {position : Nat} {o : Operation}
    (h : Yields (addOperation doc strict position o) c u c') : c.build.Run doc c'.build := by
  obtain ⟨rs, b, c₁, us, hanalyze, hsame, -, -, hplaces⟩ := exists_of_yields_addOperation h
  have hstart : c.build.Run doc b :=
    Building.compositional_run.analyze (fun p b name b' h => .single (.make h))
      (fun level origin message b u b' h => .single (.same (Building.yields_note h))) o
      _ _ _ hanalyze
  refine hplaces.invariant (I := fun _ c' => c.build.Run doc c'.build)
    (hstart.tail (.same hsame)) fun _ t c₂ u c₃ _ hI hstep => ?_
  exact .trans hI (run_of_yields_placeOn hstep)

/-- A classification that does not fail is a run. -/
theorem run_of_yields_addOperations {operations : List Operation}
    (h : Yields (addOperations doc strict operations) c u c') : c.build.Run doc c'.build := by
  obtain ⟨_, c₁, hloop, hpure⟩ := yields_bind.1 h
  obtain ⟨-, rfl⟩ := yields_pure.1 hpure
  obtain ⟨us, hsteps⟩ := along_of_yields_forIn hloop
  refine hsteps.invariant (I := fun _ c' => c.build.Run doc c'.build)
    (refl_of (Build.Run doc) c.build) fun _ entry c₂ u c₃ _ hI hstep => ?_
  exact .trans hI (run_of_yields_addOperation (yields_rethrow.1 hstep))

end Classification

namespace Library

theorem run_of_makes {e : Entry} {x x' : Assembly} {m : Route} (h : Makes doc e x m x') :
    x.2.Run doc x'.2 := by
  have hmake (p : Value) (b : Build) (name : String) (b' : Build)
      (h : Yields (Building.ofPointer doc p []) b name b') : b.Run doc b' := .single (.make h)
  obtain ⟨x₁, b, -, -, -, -, hbody, hmethod, -⟩ := exists_of_makes h
  refine .trans (Building.compositional_run.inBody hmake _ _ _ _ hbody) ?_
  refine Building.compositional_run.ofMethod hmake (fun b r b' hr => ?_) _ _ _ _ _ _ hmethod
  obtain ⟨-, rfl⟩ := Building.yields_registry.1 hr
  exact .refl

theorem Steps.run {es : List Entry} {x x' : Assembly} (h : Steps doc es x x') :
    x.2.Run doc x'.2 := by
  obtain ⟨ms, h⟩ := h
  induction h with
  | nil x => exact .refl
  | cons h hrest ih => exact .trans (run_of_makes h) ih

/-- In the end everything that schemas refer to is registered. -/
theorem HasParts.linked {l : Library} {d : Description} {s : Settings}
    {tagged : List (Bucket × List Route × List String)} {x final : Assembly}
    (h : HasParts l d s (classified d s) tagged x final)
    (hc : Yields (Classification.addOperations d.document s.strictOperationIds d.operations) {} ()
      (classified d s)) : final.2.Linked d.document [] :=
  ((Build.Linked.empty.of_run (Classification.run_of_yields_addOperations hc)).of_run
    h.steps_managers.run).of_run h.steps_methods.run

end Library

end OpenApiClient
