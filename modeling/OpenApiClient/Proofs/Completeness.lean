import OpenApiClient.Proofs.Reach

/-!
# Every entity that is reached is complete

A walk stops where it has been before: at a schema that is used up, at a name that has no room
left on the chain of entities that are being made, and at a pointer that a composition has
followed.  None of this loses a property, as long as no name stands for two schemas.  A schema
may be used up while an entity further out is still being made, so what is known of it speaks
of those entities: everything it refers to is used up or is being made.  Once nothing is being
made any more, everything that has been reached is used up.
-/

namespace OpenApiClient

open Walk

variable {doc : Document} {called : List Value}

/-- No name stands for two schemas. -/
def Unambiguous (doc : Document) (called : List Value) : Prop :=
  ∀ name v w, Visited doc called name v → Visited doc called name w → v = w

namespace Registry

/-- The properties of an entity are those that a beginning of its contributions makes. -/
def Within (doc : Document) (called : List Value) (r : Registry) : Prop :=
  ∀ name schema, Visited doc called name schema →
    ∃ begun, begun <+: Schema.closure doc schema ∧
      r.propertiesOf name = Schema.propertiesOf doc begun

theorem Within.congr {r r' : Registry} (h : Within doc called r)
    (heq : ∀ name, r'.propertiesOf name = r.propertiesOf name) : Within doc called r' := by
  intro name schema hv
  rw [heq name]
  exact h name schema hv

/-- The registry after a contribution to the entity of a name. -/
def contribute (doc : Document) (r : Registry) (name : String) (c : Schema.Contribution) :
    Registry :=
  (c.property? doc).elim r fun p => r.modify name (·.addProperty p)

theorem grows_contribute (r : Registry) (name : String) (c : Schema.Contribution) :
    r.Grows (r.contribute doc name c) := by
  unfold contribute
  cases c.property? doc with
  | none => exact Grows.refl
  | some p => exact r.grows_modify name fun e => e.grows_addProperty p

theorem propertiesOf_contribute (r : Registry) {name : String} (c : Schema.Contribution)
    (hname : r.contains name = true) (other : String) :
    (r.contribute doc name c).propertiesOf other =
      if other = name then
        (c.property? doc).elim (r.propertiesOf name) (Property.addTo (r.propertiesOf name))
      else r.propertiesOf other := by
  unfold contribute
  cases c.property? doc with
  | none =>
      by_cases hn : other = name <;> simp [hn]
  | some p =>
      simp only [Option.elim_some]
      rw [propertiesOf_addProperty]
      by_cases hn : other = name <;> simp [hn, hname]

/-- The next contribution takes the properties of an entity from one beginning to another,
whether or not a walk further in has been ahead. -/
theorem exists_begun_contribute {cs done begun : List Schema.Contribution}
    {c : Schema.Contribution} {ps : List Property} (hdone : done ++ [c] <+: cs)
    (hbegun : begun <+: cs) (hps : ps = Schema.propertiesOf doc begun)
    (hahead : Schema.propertiesOf doc done <+: ps) :
    ∃ begun', begun' <+: cs ∧
      (c.property? doc).elim ps (Property.addTo ps) = Schema.propertiesOf doc begun' ∧
      Schema.propertiesOf doc (done ++ [c]) <+: Schema.propertiesOf doc begun' := by
  by_cases hc : done ++ [c] <+: begun
  · -- The contribution has been made already; its property is there.
    refine ⟨begun, hbegun, ?_, Schema.propertiesOf_mono doc hc⟩
    rw [← hps]
    cases hq : c.property? doc with
    | none => rfl
    | some q =>
        have hmem : q ∈ begun.filterMap (·.property? doc) :=
          List.mem_filterMap.2 ⟨c, hc.subset (by simp), hq⟩
        have hany : ps.any (·.name == q.name) = true := hps ▸ Property.any_firstOfEach hmem
        exact if_pos hany
  · -- Nobody has been ahead: the properties are exactly those that were made so far.
    have hprefix : begun <+: done := by
      rcases List.prefix_or_prefix_of_prefix hbegun hdone with h | h
      · rcases List.prefix_concat_iff.1 h with rfl | h
        · exact absurd (List.prefix_refl _) hc
        · exact h
      · exact absurd h hc
    have heq : ps = Schema.propertiesOf doc done := by
      have hle : ps <+: Schema.propertiesOf doc done :=
        hps ▸ Schema.propertiesOf_mono doc hprefix
      exact hle.eq_of_length_le hahead.length_le
    refine ⟨done ++ [c], hdone, ?_, List.prefix_refl _⟩
    rw [heq, Schema.propertiesOf_append_singleton]

theorem Within.contribute {r : Registry} {name : String} {schema : Value}
    {done : List Schema.Contribution} {c : Schema.Contribution}
    (hone : Unambiguous doc called) (hr : Within doc called r)
    (hv : Visited doc called name schema) (hname : r.contains name = true)
    (hdone : done ++ [c] <+: Schema.closure doc schema)
    (hahead : Schema.propertiesOf doc done <+: r.propertiesOf name) :
    Within doc called (r.contribute doc name c) ∧
      Schema.propertiesOf doc (done ++ [c]) <+: (r.contribute doc name c).propertiesOf name := by
  obtain ⟨begun, hbegun, hps⟩ := hr name schema hv
  obtain ⟨begun', hbegun', heq, hnext⟩ := exists_begun_contribute hdone hbegun hps hahead
  constructor
  · intro other w hw
    rw [propertiesOf_contribute r c hname]
    split
    · next hn =>
        subst hn
        obtain rfl := hone _ _ _ hv hw
        exact ⟨begun', hbegun', heq⟩
    · exact hr other w hw
  · rw [propertiesOf_contribute r c hname, if_pos rfl, heq]
    exact hnext

end Registry

/-- A contribution has been followed: what it refers to is used up or is being made. -/
structure Followed (doc : Document) (ancestry : List String) (b : Build)
    (c : Schema.Contribution) : Prop where
  no_failure : ∀ f, c ≠ .failure f
  used : ∀ p, c.pointer? doc = some p →
    ∃ t w, doc.entity? p = some (t, w) ∧ ((t, w) ∈ b.completed ∨ t ∈ ancestry)

theorem Followed.mono {ancestry : List String} {b b' : Build} {c : Schema.Contribution}
    (h : Followed doc ancestry b c) (hg : b.Grows b') : Followed doc ancestry b' c := by
  refine ⟨h.no_failure, fun p hp => ?_⟩
  obtain ⟨t, w, ht, hused⟩ := h.used p hp
  exact ⟨t, w, ht, hused.imp_left fun hmem => hg.completed.subset hmem⟩

/-- A schema has been used up for an entity, while others are being made. -/
structure Exhausted (doc : Document) (called : List Value) (ancestry : List String) (b : Build)
    (name : String) (schema : Value) : Prop where
  visited : Visited doc called name schema
  registered : b.registry.contains name = true
  followed : ∀ c ∈ Schema.closure doc schema, Followed doc ancestry b c
  properties : Schema.propertiesOf doc (Schema.closure doc schema) <+:
    b.registry.propertiesOf name

theorem Exhausted.mono {ancestry : List String} {b b' : Build} {name : String} {schema : Value}
    (h : Exhausted doc called ancestry b name schema) (hg : b.Grows b') :
    Exhausted doc called ancestry b' name schema where
  visited := h.visited
  registered := hg.registry.contains h.registered
  followed c hc := (h.followed c hc).mono hg
  properties := h.properties.trans (hg.registry.propertiesOf name)

/-- Every schema that is used up is exhausted, and no entity has got properties it should not
have. -/
structure Complete (doc : Document) (called : List Value) (ancestry : List String) (b : Build) :
    Prop where
  within : b.registry.Within doc called
  exhausted : ∀ name schema, (name, schema) ∈ b.completed →
    Exhausted doc called ancestry b name schema

namespace Complete

variable {room ancestry : List String} {name : String} {schema : Value} {b b' : Build}

/-- Beginning to make an entity asks less of what is used up. -/
theorem enter (h : Complete doc called ancestry b) :
    Complete doc called (ancestry ++ [name]) b where
  within := h.within
  exhausted other w hw := by
    obtain ⟨hv, hreg, hfollowed, hprops⟩ := h.exhausted other w hw
    refine ⟨hv, hreg, fun c hc => ⟨(hfollowed c hc).no_failure, fun p hp => ?_⟩, hprops⟩
    obtain ⟨t, v, ht, hused⟩ := (hfollowed c hc).used p hp
    exact ⟨t, v, ht, hused.imp_right (List.mem_append_left [name])⟩

theorem congr (h : Complete doc called ancestry b) (hg : b.Grows b')
    (hcompleted : b'.completed = b.completed)
    (heq : ∀ other, b'.registry.propertiesOf other = b.registry.propertiesOf other) :
    Complete doc called ancestry b' where
  within := h.within.congr heq
  exhausted other w hw := (h.exhausted other w (hcompleted ▸ hw)).mono hg

end Complete

/-- How far the making of an entity has come along its contributions. -/
structure Progress (doc : Document) (called : List Value) (ancestry : List String)
    (name : String) (done : List Schema.Contribution) (b : Build) : Prop where
  complete : Complete doc called ancestry b
  registered : b.registry.contains name = true
  followed : ∀ c ∈ done, Followed doc ancestry b c
  properties : Schema.propertiesOf doc done <+: b.registry.propertiesOf name

namespace Progress

variable {room ancestry : List String} {name : String} {schema : Value} {b b' : Build}
  {done : List Schema.Contribution}

theorem start (h : Complete doc called ancestry b) (hreg : b.registry.contains name = true) :
    Progress doc called ancestry name [] b :=
  ⟨h, hreg, nofun, List.nil_prefix⟩

/-- The contribution's property is added once its reference has been followed. -/
theorem contribute {c : Schema.Contribution} (hone : Unambiguous doc called)
    (hv : Visited doc called name schema) (hdone : done ++ [c] <+: Schema.closure doc schema)
    (h : Progress doc called ancestry name done b) (hc : Followed doc ancestry b c)
    (hreg : b'.registry = b.registry.contribute doc name c)
    (hcompleted : b'.completed = b.completed) :
    Progress doc called ancestry name (done ++ [c]) b' := by
  have hg : b.Grows b' :=
    ⟨hreg ▸ b.registry.grows_contribute name c, hcompleted ▸ List.suffix_refl _⟩
  obtain ⟨hwithin, hprops⟩ :=
    h.complete.within.contribute hone hv h.registered hdone h.properties
  rw [← hreg] at hwithin hprops
  refine ⟨⟨hwithin, fun other w hw => ?_⟩, hg.registry.contains h.registered, ?_, hprops⟩
  · exact (h.complete.exhausted other w (hcompleted ▸ hw)).mono hg
  · intro d hd
    rcases List.mem_append.1 hd with hd | hd
    · exact (h.followed d hd).mono hg
    · obtain rfl := List.mem_singleton.1 hd
      exact hc.mono hg

/-- A state that has grown and is complete has come as far. -/
theorem mono (h : Progress doc called ancestry name done b) (hg : b.Grows b')
    (hb' : Complete doc called ancestry b') : Progress doc called ancestry name done b' where
  complete := hb'
  registered := hg.registry.contains h.registered
  followed c hc := (h.followed c hc).mono hg
  properties := h.properties.trans (hg.registry.propertiesOf name)

end Progress

/-- Every entity that a walk may come to has room left or is being made. -/
def Covers (doc : Document) (room ancestry : List String) : Prop :=
  ∀ s ∈ doc.pointers, ∀ name, Building.entityName? s = some name →
    name ∈ room ∨ name ∈ ancestry

namespace Covers

variable {room ancestry : List String} {name : String} {schema : Value}

theorem roomFor (doc : Document) (name : String) (schema : Value) :
    Covers doc (Building.roomFor doc name schema) [] := by
  intro s hs n hn
  refine .inl (List.mem_flatMap.2 ⟨n, ?_, by simp [Building.expansions]⟩)
  rw [List.mem_eraseDups]
  refine List.mem_cons_of_mem _ (List.mem_filterMap.2 ⟨s, ?_, hn⟩)
  exact List.mem_append_right _ hs

/-- What takes the room of a name is being made itself. -/
theorem enter (h : Covers doc room ancestry) :
    Covers doc (room.erase name) (ancestry ++ [name]) := by
  intro s hs n hn
  by_cases hname : n = name
  · exact .inr (by simp [hname])
  · rcases h s hs n hn with hroom | hanc
    · exact .inl ((List.mem_erase_of_ne hname).2 hroom)
    · exact .inr (List.mem_append_left _ hanc)

theorem of_pointer? (h : Covers doc room ancestry) {p₀ : Value}
    (he : doc.entity? p₀ = some (name, schema)) {c : Schema.Contribution}
    (hc : c ∈ Schema.closure doc schema) {p w : Value} {t : String}
    (hp : c.pointer? doc = some p) (ht : doc.entity? p = some (t, w)) :
    t ∈ room ∨ t ∈ ancestry := by
  obtain ⟨segment, hresolve, rfl⟩ := Document.entity?_eq_some.1 ht
  obtain ⟨_, hschema, -⟩ := Document.entity?_eq_some.1 he
  obtain ⟨s, rfl, hname⟩ := Document.entityName?_of_resolve hresolve
  refine h s ?_ _ hname
  cases c with
  | failure f => cases hp
  | cycle q => cases hp
  | property key sub required =>
      obtain ⟨ps, part, hpart, hown⟩ := Schema.declares_of_mem_contributions hc
      have hsub : s ∈ sub.pointers :=
        Schema.mem_pointers_of_refers (Schema.Contribution.pointer?_property.1 hp)
      have hreach : s ∈ doc.reach schema :=
        hpart.subset_reach.2 (Schema.pointers_subset_of_ownProperties hown hsub)
      rcases List.mem_append.1 hreach with hs | hs
      · exact Document.pointers_subset_of_resolve hschema hs
      · exact hs

end Covers

namespace Complete

variable {room ancestry : List String} {name : String} {schema : Value} {b b' : Build}

theorem extend {done : List Schema.Contribution} {c : Schema.Contribution}
    (hone : Unambiguous doc called) (hv : Visited doc called name schema)
    (hcover : Covers doc (room.erase name) (ancestry ++ [name]))
    (hdone : done ++ [c] <+: Schema.closure doc schema)
    (hmake : ∀ t w b b', Visited doc called t w →
      (t ∈ room.erase name ∨ t ∈ ancestry ++ [name]) →
      Complete doc called (ancestry ++ [name]) b →
      Yields (Building.materialize doc (room.erase name) (ancestry ++ [name]) t w) b () b' →
      Complete doc called (ancestry ++ [name]) b' ∧
        ((t, w) ∈ b'.completed ∨ t ∈ ancestry ++ [name]))
    (h : Progress doc called (ancestry ++ [name]) name done b)
    (hstep : Yields (Building.extend (Building.follow doc room ancestry name) doc name c)
      b () b') :
    Progress doc called (ancestry ++ [name]) name (done ++ [c]) b' := by
  have hc : c ∈ Schema.closure doc schema := hdone.subset (by simp)
  obtain ⟨hno, b₁, hplain, hrefers, hcompleted, hreg⟩ := Building.yields_extend
    (fun p b t b' h => (Building.yields_follow h).imp fun _ => And.left) hstep
  suffices h₁ : Progress doc called (ancestry ++ [name]) name done b₁ ∧
      Followed doc (ancestry ++ [name]) b₁ c from
    h₁.1.contribute hone hv hdone h₁.2 hreg hcompleted
  cases hp : c.pointer? doc with
  | none =>
      obtain ⟨hr, hcomp⟩ := hplain hp
      have hg : b.Grows b₁ := ⟨hr ▸ Registry.Grows.refl, hcomp ▸ List.suffix_refl _⟩
      refine ⟨h.mono hg (h.complete.congr hg hcomp fun other => by rw [hr]), hno, ?_⟩
      intro p hp'
      cases hp.symm.trans hp'
  | some p =>
      obtain ⟨t, b₀, hfollow, hr, hcomp⟩ := hrefers p hp
      obtain ⟨w, ht, hm⟩ := Building.yields_follow hfollow
      have hw := hv.of_pointer? hc hp ht
      obtain ⟨p₀, -, he⟩ := hv
      obtain ⟨h₀, hused⟩ := hmake t w b b₀ hw (hcover.of_pointer? he hc hp ht) h.complete hm
      have hg₀ : b.Grows b₀ := (Building.keeps_materialize doc _ _ t w).of_yields hm
      have hg₁ : b₀.Grows b₁ := by
        refine ⟨?_, hcomp ▸ List.suffix_refl _⟩
        rw [hr]
        exact b₀.registry.grows_modify name fun e => e.grows_addUse t
      have h₁ : Complete doc called (ancestry ++ [name]) b₁ := by
        refine h₀.congr hg₁ hcomp fun other => ?_
        rw [hr, Registry.propertiesOf_addUse]
      refine ⟨h.mono (trans_of Build.Grows hg₀ hg₁) h₁, hno, fun q hq => ?_⟩
      obtain rfl := Option.some.inj (hp.symm.trans hq)
      exact ⟨t, w, ht, hcomp ▸ hused⟩

theorem exhaust (hone : Unambiguous doc called) (hv : Visited doc called name schema)
    (h : Progress doc called (ancestry ++ [name]) name (Schema.closure doc schema) b) :
    Complete doc called ancestry { b with completed := (name, schema) :: b.completed } := by
  have hg : b.Grows { b with completed := (name, schema) :: b.completed } :=
    ⟨Registry.Grows.refl, List.suffix_cons _ _⟩
  -- Of the entities being made only this one is done, and its schema is used up now.
  have hleave {c : Schema.Contribution} {other : String} {w : Value}
      (hw : Visited doc called other w) (hc : c ∈ Schema.closure doc w)
      (hf : Followed doc (ancestry ++ [name]) b c) :
      Followed doc ancestry { b with completed := (name, schema) :: b.completed } c := by
    refine ⟨hf.no_failure, fun p hp => ?_⟩
    obtain ⟨t, v, ht, hused⟩ := hf.used p hp
    refine ⟨t, v, ht, ?_⟩
    rcases hused with hmem | hanc
    · exact .inl (List.mem_cons_of_mem _ hmem)
    · rcases List.mem_append.1 hanc with hanc | hanc
      · exact .inr hanc
      · obtain rfl := List.mem_singleton.1 hanc
        obtain rfl := hone _ _ _ hv (hw.of_pointer? hc hp ht)
        exact .inl List.mem_cons_self
  refine ⟨h.complete.within, fun other w hw => ?_⟩
  rcases List.mem_cons.1 hw with heq | hw
  · obtain ⟨rfl, rfl⟩ := Prod.mk.inj heq
    exact ⟨hv, h.registered, fun c hc => hleave hv hc (h.followed c hc), h.properties⟩
  · have he := (h.complete.exhausted other w hw).mono hg
    exact ⟨he.visited, he.registered,
      fun c hc => hleave he.visited hc ((h.complete.exhausted other w hw).followed c hc),
      he.properties⟩

theorem materialize (hone : Unambiguous doc called) (room ancestry : List String)
    (name : String) (schema : Value) :
    ∀ b b', Covers doc room ancestry → Visited doc called name schema →
      (name ∈ room ∨ name ∈ ancestry) → Complete doc called ancestry b →
      Yields (Building.materialize doc room ancestry name schema) b () b' →
      Complete doc called ancestry b' ∧
        ((name, schema) ∈ b'.completed ∨ name ∈ ancestry) := by
  induction room, ancestry, name, schema using Building.room_induction with
  | step room ancestry name schema ih =>
      intro b b' hcover hv hroom hb h
      obtain ⟨hout, hr, hcomp⟩ | ⟨hname, b₁, hr, hcomp, hmade⟩ :=
        Building.yields_materialize h
      · have hg : b.Grows b' := ⟨hr ▸ Registry.Grows.refl, hcomp ▸ List.suffix_refl _⟩
        exact ⟨hb.congr hg hcomp fun other => by rw [hr],
          .inr (hroom.resolve_left hout)⟩
      have hg : b.Grows b₁ :=
        ⟨hr ▸ b.registry.grows_register name, hcomp ▸ List.suffix_refl _⟩
      have h₁ : Complete doc called ancestry b₁ := by
        refine hb.congr hg hcomp fun other => ?_
        rw [hr, Registry.propertiesOf_register]
      have hreg : b₁.registry.contains name = true := by
        rw [hr, Registry.contains_register]
        simp
      obtain ⟨hused, rfl⟩ | ⟨-, b₂, ⟨us, hwalk⟩, rfl⟩ := hmade
      · exact ⟨h₁, .inl (hcomp ▸ hused)⟩
      · have hend := hwalk.invariant
          (I := Progress doc called (ancestry ++ [name]) name)
          (Progress.start h₁.enter hreg)
          fun done c s u s' hdone hs hstep =>
            extend hone hv hcover.enter hdone
              (fun t w b b' hw ht => ih hname t w b b' hcover.enter hw ht) hs hstep
        exact ⟨exhaust hone hv hend, .inl List.mem_cons_self⟩

end Complete

/-- When nothing is being made any more, everything that has been reached is used up. -/
theorem Complete.used_of_visited {b : Build} (hb : Complete doc called [] b)
    (hcalled : ∀ p ∈ called, ∃ t w, doc.entity? p = some (t, w) ∧ (t, w) ∈ b.completed)
    {name : String} {schema : Value} (hv : Visited doc called name schema) :
    (name, schema) ∈ b.completed := by
  obtain ⟨p, hp, he⟩ := hv
  have hused : ∃ t w, doc.entity? p = some (t, w) ∧ (t, w) ∈ b.completed := by
    clear he
    induction hp with
    | called h => exact hcalled _ h
    | @declared p q node sub t key required hp he hd hr ih =>
        obtain ⟨t', w', he', hmem⟩ := ih
        obtain ⟨rfl, rfl⟩ := Prod.mk.inj (Option.some.inj (he.symm.trans he'))
        have hx := hb.exhausted t node hmem
        have hno : ∀ f, .failure f ∉ Schema.closure doc node :=
          fun f hf => (hx.followed _ hf).no_failure f rfl
        have hc := (Schema.mem_closure_iff hno).2 hd
        obtain ⟨u, v, hu, hused⟩ :=
          (hx.followed _ hc).used q (Schema.Contribution.pointer?_property.2 hr)
        exact ⟨u, v, hu, hused.resolve_right (by simp)⟩
  obtain ⟨t, w, he', hmem⟩ := hused
  obtain ⟨rfl, rfl⟩ := Prod.mk.inj (Option.some.inj (he.symm.trans he'))
  exact hmem

/-- Making the entities of all pointers that are called leaves nothing to be made. -/
theorem complete_of_called {names : List String} {b : Build} (hone : Unambiguous doc called)
    (h : Yields (called.mapM fun p => Building.ofPointer doc p []) {} names b) :
    Complete doc called [] b ∧
      ∀ p ∈ called, ∃ t w, doc.entity? p = some (t, w) ∧ (t, w) ∈ b.completed := by
  refine (yields_mapM.1 h).invariant
    (I := fun done b => Complete doc called [] b ∧
      ∀ p ∈ done, ∃ t w, doc.entity? p = some (t, w) ∧ (t, w) ∈ b.completed) ?start ?step
  case start =>
    refine ⟨⟨fun name schema hv => ?_, nofun⟩, nofun⟩
    exact ⟨[], List.nil_prefix, rfl⟩
  case step =>
    intro done p s name s' hdone ⟨hs, hused⟩ hstep
    obtain ⟨v, hv, hm⟩ := Building.yields_ofPointer hstep
    have hp : p ∈ called := hdone.subset (by simp)
    have hroom := Building.mem_roomFor doc name v
    obtain ⟨hs', hname⟩ := hs.materialize hone _ [] name v s s' (Covers.roomFor doc name v)
      ⟨p, .called hp, hv⟩ (.inl hroom) hm
    have hg : s.Grows s' := (Building.keeps_materialize doc _ _ name v).of_yields hm
    refine ⟨hs', fun q hq => ?_⟩
    rcases List.mem_append.1 hq with hq | hq
    · obtain ⟨t, w, ht, hmem⟩ := hused q hq
      exact ⟨t, w, ht, hg.completed.subset hmem⟩
    · obtain rfl := List.mem_singleton.1 hq
      exact ⟨name, v, hv, hname.resolve_right (by simp)⟩

/-- Making the entities of pointers, one after the other, makes what can be reached from them.
Everything made has been reached and is declared where it was reached.  If no name stands for
two schemas, everything that is reached is made, and an entity has exactly the properties that
the composition of its schema lists, those of its members before its own, the first one of each
name; and the composition lists whatever its parts declare. -/
theorem materialized_closure {names : List String} {b : Build}
    (h : Yields (called.mapM fun p => Building.ofPointer doc p []) {} names b) :
    (∀ e ∈ b.registry.entities, (∃ v, Visited doc called e.name v) ∧
      ∀ q ∈ e.properties, ∃ v, Visited doc called e.name v ∧ Schema.Makes doc v q) ∧
    (Unambiguous doc called →
      (∀ name, name ∈ b.registry.names ↔ ∃ v, Visited doc called name v) ∧
      ∀ name v, Visited doc called name v → ∃ e cs, b.registry.get? name = some e ∧
        Schema.Lists doc [] v cs ∧ e.properties = Schema.propertiesOf doc cs ∧
        ∀ key schema required, .property key schema required ∈ cs ↔
          Schema.Declares doc v key schema required) := by
  have hsound := Registry.reachable_of_called h
  refine ⟨hsound, fun hone => ?_⟩
  obtain ⟨hcomplete, hcalled⟩ := complete_of_called hone h
  have hmade {name : String} {v : Value} (hv : Visited doc called name v) :
      Exhausted doc called [] b name v :=
    hcomplete.exhausted name v (hcomplete.used_of_visited hcalled hv)
  refine ⟨fun name => ⟨fun hname => ?_, ?_⟩, fun name v hv => ?_⟩
  · obtain ⟨e, he, rfl⟩ := List.mem_map.1 hname
    exact (hsound e he).1
  · rintro ⟨v, hv⟩
    exact (b.registry.contains_iff_mem_names name).1 (hmade hv).registered
  · have hno : ∀ f, .failure f ∉ Schema.closure doc v :=
      fun f hf => ((hmade hv).followed _ hf).no_failure f rfl
    obtain ⟨e, he⟩ := Option.isSome_iff_exists.1 (hmade hv).registered
    obtain ⟨begun, hbegun, heq⟩ := hcomplete.within name v hv
    have hall := (hmade hv).properties
    rw [heq] at hall
    have hle := Schema.propertiesOf_mono doc hbegun
    have hproperties : e.properties = Schema.propertiesOf doc (Schema.closure doc v) := by
      rw [hall.eq_of_length_le hle.length_le, ← heq]
      simp [Registry.propertiesOf, he]
    exact ⟨e, _, he, Schema.lists_closure hno, hproperties, fun key schema required =>
      Schema.mem_closure_iff hno⟩

section Circle

/-- A document with two schemas that are composed of each other; one refers to itself. -/
def circle : Document := .ofValue <| .map 0 [(.str "components", .map 1 [(.str "schemas",
  .map 2 [
    (.str "node", .map 3 [
      (.str "allOf", .seq [Schema.referenceTo (.str "#/components/schemas/base")]),
      (.str "properties", .map 4 [
        (.str "next", Schema.referenceTo (.str "#/components/schemas/node"))])]),
    (.str "base", .map 5 [
      (.str "allOf", .seq [Schema.referenceTo (.str "#/components/schemas/node")]),
      (.str "properties", .map 6 [
        (.str "name", .map 7 [(.str "type", .str "string")])])])])])]

def circleNode : Value := .str "#/components/schemas/node"

def circleSchema : Value := ((circle.entity? circleNode).map (·.2)).getD .null

theorem closure_circle : Schema.closure circle circleSchema = [
    .cycle "#/components/schemas/base",
    .property (.str "next") (Schema.referenceTo circleNode) false,
    .property (.str "name") (.map 7 [(.str "type", .str "string")]) false,
    .property (.str "next") (Schema.referenceTo circleNode) false] := by
  decide +kernel

theorem unambiguous_circle : Unambiguous circle [circleNode, circleNode] := by
  have hentity : circle.entity? circleNode = some ("Node", circleSchema) := by decide +kernel
  have hreached : ∀ p, Reached circle [circleNode, circleNode] p → p = circleNode := by
    intro p hp
    induction hp with
    | called h => simpa using h
    | declared hp he hd hr ih =>
        subst ih
        obtain ⟨rfl, rfl⟩ := Prod.mk.inj (Option.some.inj (hentity.symm.trans he))
        have hno : ∀ f, .failure f ∉ Schema.closure circle circleSchema := by
          simp [closure_circle]
        have hmem := (Schema.mem_closure_iff hno).2 hd
        simp only [closure_circle, List.mem_cons, reduceCtorEq, List.not_mem_nil, or_false,
          false_or, Schema.Contribution.property.injEq] at hmem
        cases hr with
        | property hr hs =>
            rcases hmem with ⟨-, rfl, -⟩ | ⟨-, rfl, -⟩ | ⟨-, rfl, -⟩
            · exact (Option.some.inj hr).symm
            · cases hr
            · exact (Option.some.inj hr).symm
        | items hr ht hi hs =>
            rcases hmem with ⟨-, rfl, -⟩ | ⟨-, rfl, -⟩ | ⟨-, rfl, -⟩
            · cases hr
            · cases hi
            · cases hr
  rintro name v w ⟨p, hp, hv⟩ ⟨q, hq, hw⟩
  rw [hreached p hp] at hv
  rw [hreached q hq] at hw
  exact (Prod.mk.inj (Option.some.inj (hv.symm.trans hw))).2

/-- Making the entity of the circle, twice, lists each of its properties once. -/
theorem materialized_closure_circle : ∃ b : Build,
    Yields ([circleNode, circleNode].mapM fun p => Building.ofPointer circle p []) {}
      ["Node", "Node"] b ∧
    Unambiguous circle [circleNode, circleNode] ∧
    ∃ e cs, b.registry.get? "Node" = some e ∧ Schema.Lists circle [] circleSchema cs ∧
      e.properties = Schema.propertiesOf circle cs ∧
      e.properties.map (·.name) = ["next", "name"] := by
  have h := yields_outcome (m := [circleNode, circleNode].mapM fun p =>
    Building.ofPointer circle p []) (s := {}) (a := ["Node", "Node"]) (by decide +kernel)
  have hv : Visited circle [circleNode, circleNode] "Node" circleSchema :=
    ⟨circleNode, .called (by simp), by decide +kernel⟩
  obtain ⟨e, cs, he, hcs, hproperties, -⟩ :=
    ((materialized_closure h).2 unambiguous_circle).2 "Node" circleSchema hv
  refine ⟨_, h, unambiguous_circle, e, cs, he, hcs, hproperties, ?_⟩
  have hno : ∀ f, .failure f ∉ Schema.closure circle circleSchema := by
    simp [closure_circle]
  rw [hproperties, hcs.unique (Schema.lists_closure hno)]
  decide +kernel

end Circle

end OpenApiClient
