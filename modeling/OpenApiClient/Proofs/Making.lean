import OpenApiClient.Proofs.Declaration

/-!
# What making an entity does

One lemma for each of the walks that make entities, for the case that the walk succeeds: what
it has done to the registry and to the list of what is used up.  Everything that is proved of
entities later goes by these lemmas; none of it opens the walks again.
-/

namespace OpenApiClient

/-- Two states that differ at most in what was noted. -/
def Build.Same (b b' : Build) : Prop :=
  b'.registry = b.registry ∧ b'.completed = b.completed

theorem Build.Same.grows {b b' : Build} (h : b.Same b') : b.Grows b' :=
  ⟨h.1 ▸ Registry.Grows.refl, h.2 ▸ List.suffix_refl _⟩

theorem Build.Same.trans {b b' b'' : Build} (h : b.Same b') (h' : b'.Same b'') : b.Same b'' :=
  ⟨h'.1.trans h.1, h'.2.trans h.2⟩

namespace Building

open Walk

theorem yields_note {level : Level} {origin message : String} {b b' : Build} {u : Unit}
    (h : Yields (note level origin message) b u b') : b.Same b' := by
  obtain rfl := yields_modify.1 h
  exact ⟨rfl, rfl⟩

theorem yields_modifyRegistry {f : Registry → Registry} {b b' : Build} {u : Unit} :
    Yields (modifyRegistry f) b u b' ↔ b' = { b with registry := f b.registry } :=
  yields_modify

theorem yields_registry {b b' : Build} {r : Registry} :
    Yields registry b r b' ↔ r = b.registry ∧ b' = b := by
  unfold registry
  constructor
  · intro h
    obtain ⟨_, _, hget, h⟩ := yields_bind.1 h
    obtain ⟨rfl, rfl⟩ := yields_get.1 hget
    exact yields_pure.1 h
  · rintro ⟨rfl, rfl⟩
    exact yields_bind.2 ⟨_, _, yields_get.2 ⟨rfl, rfl⟩, yields_pure.2 ⟨rfl, rfl⟩⟩

theorem succeeds_register (name : String) : Succeeds (register name) := by
  refine (Succeeds.get.bind fun b => Succeeds.pure _).bind fun r => ?_
  split
  · exact Succeeds.pure _
  · exact (Succeeds.modify _).bind fun _ => Succeeds.modify _

theorem yields_register {name : String} {b b' : Build} {u : Unit}
    (h : Yields (register name) b u b') :
    b'.registry = b.registry.register name ∧ b'.completed = b.completed := by
  obtain ⟨_, _, hr, h⟩ := yields_bind.1 h
  obtain ⟨rfl, rfl⟩ := yields_registry.1 hr
  split at h
  · next hc =>
      obtain ⟨-, rfl⟩ := yields_pure.1 h
      simp [Registry.register, hc]
  · obtain ⟨_, b₁, hm, h⟩ := yields_bind.1 h
    obtain rfl := yields_modifyRegistry.1 hm
    exact yields_note h

/-- A property that is made of values is added to the entity. -/
theorem yields_addProperty {entity : String} {x : Except Fault Property} {b b' : Build}
    {u : Unit}
    (h : Yields (do
      let p ← liftM x
      modifyRegistry fun r => r.modify entity fun e => e.addProperty p) b u b') :
    ∃ p, x.toOption = some p ∧
      b' = { b with registry := b.registry.modify entity (·.addProperty p) } := by
  obtain ⟨p, _, hx, hm⟩ := yields_bind.1 h
  obtain ⟨rfl, rfl⟩ := yields_lift.1 hx
  exact ⟨p, rfl, yields_modifyRegistry.1 hm⟩

/-- A property that holds an entity is added once that entity is made and its use is noted. -/
theorem yields_refer {α : Type} {m : Building String} {entity : String} {values : String → α}
    {make : α → Except Fault Property} {b b' : Build} {u : Unit}
    (h : Yields (do
      let target ← m
      modifyRegistry fun r => r.modify entity fun e => e.addUse target
      let v ← pure (values target)
      let p ← liftM (make v)
      modifyRegistry fun r => r.modify entity fun e => e.addProperty p) b u b') :
    ∃ (target : String) (b₀ b₁ : Build) (p : Property), Yields m b target b₀ ∧
      b₁.registry = b₀.registry.modify entity (·.addUse target) ∧
      b₁.completed = b₀.completed ∧ (make (values target)).toOption = some p ∧
      b' = { b₁ with registry := b₁.registry.modify entity (·.addProperty p) } := by
  obtain ⟨target, b₀, hm, h₁⟩ := yields_bind.1 h
  obtain ⟨_, b₁, hu, h₂⟩ := yields_bind.1 h₁
  have hb₁ := yields_modifyRegistry.1 hu
  obtain ⟨_, _, hf, h₃⟩ := yields_bind.1 h₂
  obtain ⟨rfl, rfl⟩ := yields_pure.1 hf
  obtain ⟨p, hp, rfl⟩ := yields_addProperty h₃
  exact ⟨target, b₀, _, p, hm, by rw [hb₁], by rw [hb₁], hp, rfl⟩

/-- Extending an entity makes the entity that the contribution refers to, if there is one, and
adds the property that the contribution makes. -/
theorem yields_extend {refer : Value → Building String} {doc : Document} {entity : String}
    {c : Schema.Contribution} {b b' : Build} {u : Unit}
    (hrefer : ∀ p b t b', Yields (refer p) b t b' → ∃ v, doc.entity? p = some (t, v))
    (h : Yields (extend refer doc entity c) b u b') :
    (∀ f, c ≠ .failure f) ∧ ∃ b₁ : Build,
      (c.pointer? doc = none → b.Same b₁) ∧
      (∀ p, c.pointer? doc = some p → ∃ t b₀, Yields (refer p) b t b₀ ∧
        b₁.registry = b₀.registry.modify entity (·.addUse t) ∧ b₁.completed = b₀.completed) ∧
      b'.completed = b₁.completed ∧
      b'.registry = (c.property? doc).elim b₁.registry
        fun p => b₁.registry.modify entity (·.addProperty p) := by
  cases c with
  | failure fault => exact absurd h not_yields_throw
  | cycle p =>
      obtain ⟨hr, hc⟩ := yields_note h
      refine ⟨fun _ hf => (by cases hf), b, fun _ => ⟨rfl, rfl⟩, ?_, hc, hr⟩
      intro p hp
      cases hp
  | property name schema required =>
      refine ⟨fun _ hf => (by cases hf), ?_⟩
      unfold extend at h
      dsimp only at h
      unfold Schema.Contribution.pointer? Schema.Contribution.property?
        Schema.Contribution.typing?
      split at h
      · next hm =>
          -- The schema is no mapping: nothing happens.
          have hmap : schema.isMap = false := by simpa using hm
          obtain ⟨-, rfl⟩ := yields_pure.1 h
          refine ⟨b', fun _ => ⟨rfl, rfl⟩, ?_, rfl, ?_⟩
          · intro p hp
            simp [hmap] at hp
          · simp [hmap]
      · next hm =>
          have hmap : schema.isMap = true := by simpa using hm
          obtain ⟨typing, _, hlift, h₁⟩ := yields_bind.1 h
          obtain ⟨ht, rfl⟩ := yields_lift.1 hlift
          simp only [hmap, if_true, ht, Except.toOption, Option.bind_some]
          cases typing with
          | unsupported =>
              obtain ⟨_, _, hn, h₂⟩ := yields_bind.1 h₁
              obtain ⟨hr, hc⟩ := yields_note hn
              obtain ⟨-, rfl⟩ := yields_pure.1 h₂
              exact ⟨b', fun _ => ⟨hr, hc⟩, fun _ hp => (by cases hp), rfl, rfl⟩
          | plain type format description items =>
              obtain ⟨_, _, hf, h₂⟩ := yields_bind.1 h₁
              obtain ⟨rfl, rfl⟩ := yields_pure.1 hf
              obtain ⟨p, hp, rfl⟩ := yields_addProperty h₂
              refine ⟨_, fun _ => ⟨rfl, rfl⟩, fun _ hp => (by cases hp), rfl, ?_⟩
              simp [Schema.Typing.property?, hp]
          | entity pointer description =>
              obtain ⟨target, b₀, b₁, p, hr, hreg, hcompleted, hp, rfl⟩ := yields_refer h₁
              obtain ⟨v, hv⟩ := hrefer _ _ _ _ hr
              refine ⟨b₁, fun hp => (by cases hp), ?_, rfl, ?_⟩
              · rintro _ ⟨⟩
                exact ⟨target, b₀, hr, hreg, hcompleted⟩
              · simp [Schema.Typing.property?, hv, hp]
          | entities pointer description =>
              obtain ⟨target, b₀, b₁, p, hr, hreg, hcompleted, hp, rfl⟩ := yields_refer h₁
              obtain ⟨v, hv⟩ := hrefer _ _ _ _ hr
              refine ⟨b₁, fun hp => (by cases hp), ?_, rfl, ?_⟩
              · rintro _ ⟨⟩
                exact ⟨target, b₀, hr, hreg, hcompleted⟩
              · simp [Schema.Typing.property?, hv, hp]

/-- Makes the entity that a pointer leads to, below an entity that is being made. -/
def follow (doc : Document) (room ancestry : List String) (name : String) (pointer : Value) :
    Building String := do
  let (segment, target) ← doc.resolve pointer
  let other := Text.capitalizeFirst segment
  materialize doc (room.erase name) (ancestry ++ [name]) other target
  return other

theorem keeps_follow (doc : Document) (room ancestry : List String) (name : String)
    (pointer : Value) : Keeps Build.Grows (follow doc room ancestry name pointer) :=
  (Keeps.lift _).bind fun _ => (keeps_materialize doc _ _ _ _).bind fun _ => Keeps.pure _

theorem yields_follow {doc : Document} {room ancestry : List String} {name t : String}
    {p : Value} {b b' : Build} (h : Yields (follow doc room ancestry name p) b t b') :
    ∃ v, doc.entity? p = some (t, v) ∧
      Yields (materialize doc (room.erase name) (ancestry ++ [name]) t v) b () b' := by
  obtain ⟨⟨segment, v⟩, _, hlift, h₁⟩ := yields_bind.1 h
  obtain ⟨hv, rfl⟩ := yields_lift.1 hlift
  obtain ⟨_, b₁, hm, h₂⟩ := yields_bind.1 h₁
  obtain ⟨rfl, rfl⟩ := yields_pure.1 h₂
  exact ⟨v, Document.entity?_eq_some.2 ⟨segment, hv, rfl⟩, hm⟩

/-- The steps along what a schema contributes to an entity. -/
def Extends (doc : Document) (room ancestry : List String) (name : String)
    (cs : List Schema.Contribution) (b b' : Build) : Prop :=
  ∃ us, Along (fun c => Yields (extend (follow doc room ancestry name) doc name c)) cs b us b'

/-- What is made below an entity has less room than the entity itself. -/
theorem room_induction {motive : List String → List String → String → Value → Prop}
    (step : ∀ room ancestry name schema,
      (name ∈ room → ∀ t w, motive (room.erase name) (ancestry ++ [name]) t w) →
      motive room ancestry name schema)
    (room ancestry : List String) (name : String) (schema : Value) :
    motive room ancestry name schema := by
  induction hn : room.length using Nat.strong_induction_on
    generalizing room ancestry name schema with
  | _ n ih =>
      refine step room ancestry name schema fun hname t w => ih _ ?_ _ _ t w rfl
      have hlength := List.length_erase_of_mem hname
      have hpos := List.length_pos_of_mem hname
      omega

/-- What making an entity does: nothing if there is no room for its name or its schema is used
up, and otherwise a walk that uses the schema up. -/
theorem yields_materialize {doc : Document} {room ancestry : List String} {name : String}
    {schema : Value} {b b' : Build} {u : Unit}
    (h : Yields (materialize doc room ancestry name schema) b u b') :
    (name ∉ room ∧ b.Same b') ∨ (name ∈ room ∧ ∃ b₁ : Build,
      b₁.registry = b.registry.register name ∧ b₁.completed = b.completed ∧
      (((name, schema) ∈ b.completed ∧ b' = b₁) ∨
        ((name, schema) ∉ b.completed ∧ ∃ b₂,
          Extends doc room ancestry name (Schema.closure doc schema) b₁ b₂ ∧
          b' = { b₂ with completed := (name, schema) :: b₂.completed }))) := by
  by_cases hname : name ∈ room
  · refine .inr ⟨hname, ?_⟩
    rw [materialize, dif_pos hname] at h
    obtain ⟨_, b₁, hr, h₁⟩ := yields_bind.1 h
    obtain ⟨hreg, hcompleted⟩ := yields_register hr
    obtain ⟨_, _, hget, h₂⟩ := yields_bind.1 h₁
    obtain ⟨rfl, rfl⟩ := yields_get.1 hget
    refine ⟨_, hreg, hcompleted, ?_⟩
    split at h₂
    · next hc =>
        obtain ⟨-, rfl⟩ := yields_pure.1 h₂
        rw [List.contains_iff_mem, hcompleted] at hc
        exact .inl ⟨hc, rfl⟩
    · next hc =>
        rw [List.contains_iff_mem, hcompleted] at hc
        obtain ⟨_, b₂, hwalk, h₃⟩ := yields_bind.1 h₂
        exact .inr ⟨hc, b₂, along_of_yields_forIn hwalk, yields_modify.1 h₃⟩
  · rw [materialize, dif_neg hname] at h
    exact .inl ⟨hname, yields_note h⟩

theorem yields_ofPointer {p : Value} {name : String} {b b' : Build}
    (h : Yields (ofPointer doc p []) b name b') :
    ∃ v, doc.entity? p = some (name, v) ∧
      Yields (materialize doc (roomFor doc name v) [] name v) b () b' := by
  obtain ⟨⟨segment, v⟩, _, hlift, h₁⟩ := yields_bind.1 h
  obtain ⟨hv, rfl⟩ := yields_lift.1 hlift
  obtain ⟨_, b₁, hm, h₂⟩ := yields_bind.1 h₁
  obtain ⟨rfl, rfl⟩ := yields_pure.1 h₂
  exact ⟨v, Document.entity?_eq_some.2 ⟨segment, hv, rfl⟩, hm⟩

theorem mem_roomFor (doc : Document) (name : String) (schema : Value) :
    name ∈ roomFor doc name schema :=
  List.mem_flatMap.2 ⟨name, by simp [List.mem_eraseDups], by simp [expansions]⟩

/-- With room for its name, making an entity registers it and uses its schema up. -/
theorem used_of_materialize {doc : Document} {room ancestry : List String} {name : String}
    {schema : Value} {b b' : Build} {u : Unit} (hname : name ∈ room)
    (h : Yields (materialize doc room ancestry name schema) b u b') :
    b'.registry.contains name = true ∧ (name, schema) ∈ b'.completed := by
  obtain ⟨hout, -⟩ | ⟨-, b₁, hr, hcomp, hmade⟩ := yields_materialize h
  · exact absurd hname hout
  have hreg : b₁.registry.contains name = true := by
    rw [hr, Registry.contains_register]
    simp
  obtain ⟨hused, rfl⟩ | ⟨-, b₂, ⟨us, hwalk⟩, rfl⟩ := hmade
  · exact ⟨hreg, hcomp ▸ hused⟩
  · refine ⟨?_, List.mem_cons_self⟩
    exact hwalk.invariant (I := fun _ b => b.registry.contains name = true) hreg
      fun done c s v s' hdone hs hstep =>
        ((keeps_extend (fun p => keeps_follow doc room ancestry name p) doc name c).of_yields
          hstep).registry.contains hs

/-- What a pointer leads to is registered once it has been made. -/
theorem contains_of_yields_ofPointer {p : Value} {name : String} {b b' : Build}
    (h : Yields (ofPointer doc p []) b name b') : b'.registry.contains name = true := by
  obtain ⟨v, -, hm⟩ := yields_ofPointer h
  exact (used_of_materialize (mem_roomFor doc name v) hm).1

end Building

end OpenApiClient
