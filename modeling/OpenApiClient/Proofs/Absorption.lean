import OpenApiClient.Proofs.Completeness
import OpenApiClient.Proofs.History

/-!
# Making an entity again

Whoever makes an entity a second time, with nothing used up, walks through everything once more:
through schemas that are nested, that are cut off by the room, that go by a name which is taken.
Every write of the first walk is made again, and finds its work done: a name is registered, a use
is noted, a property or an earlier one of its name is there.  Writes that other parts of the walk
have made since then do not undo this, because entities only grow.

Which writes a walk makes does not depend on the registry, only on what is used up.  So the second
walk runs beside the first one, ends as the first one does, and leaves the registry as it is.
This, too, is a property of walks that is put together like the walks themselves.
-/

namespace OpenApiClient

open Walk

namespace Entity

/-- What the change has done to an entity it need not do again, however the entity grows. -/
def Lasting (f : Entity → Entity) : Prop := ∀ e e' : Entity, (f e).Grows e' → f e' = e'

theorem lasting_addUse (name : String) : Lasting (·.addUse name) := by
  intro e e' h
  have hname : e'.name = e.name := h.name_eq.trans (e.name_addUse name)
  have hused : name = e.name ∨ name ∈ (e.addUse name).uses := by
    by_cases hn : name = e.name ∨ name ∈ e.uses
    · exact hn.imp_right fun hu => (e.uses_prefix_addUse name).subset hu
    · exact .inr (by simp_all [addUse])
  rcases hused with hn | hu
  · simp [addUse, hname, hn]
  · simp [addUse, h.uses.subset hu]

theorem lasting_addProperty (p : Property) : Lasting (·.addProperty p) := by
  intro e e' h
  have hthere : (e.addProperty p).hasProperty p.name = true := by
    by_cases hp : e.hasProperty p.name = true
    · rwa [addProperty, if_pos hp]
    · rw [addProperty, if_neg hp]
      simp [hasProperty, property?]
  simp only [addProperty, h.hasProperty hthere, if_true]

end Entity

namespace Registry

/-- The entity of a name is there, and a change has nothing left to do to it. -/
structure Done (f : Entity → Entity) (name : String) (r : Registry) : Prop where
  contains : r.contains name = true
  fixed : ∀ e ∈ r.entities, e.name = name → f e = e

theorem contains_of_writes {r r' : Registry} {name : String}
    (hw : Relation.ReflTransGen Write r r') (h : r.contains name = true) :
    r'.contains name = true := by
  induction hw with
  | refl => exact h
  | tail _ hw ih => exact hw.grows.contains ih

namespace Done

variable {f : Entity → Entity} {name : String} {r r' : Registry}

theorem modify_eq (h : Done f name r) : r.modify name f = r := by
  have hentities : (r.entities.map fun e => if e.name = name then f e else e) = r.entities := by
    refine (List.map_congr_left fun e he => ?_).trans (List.map_id _)
    split
    · next hn => exact h.fixed e he hn
    · rfl
  exact congrArg Registry.mk hentities

theorem of_modify (hf : Entity.Lasting f) (hname : ∀ e, (f e).name = e.name)
    (h : r.contains name = true) : Done f name (r.modify name f) := by
  refine ⟨?_, fun e he hn => ?_⟩
  · rw [contains_iff_mem_names, names_modify r name hname, ← contains_iff_mem_names]
    exact h
  · obtain ⟨e₀, -, rfl⟩ := List.mem_map.1 he
    split
    · exact hf e₀ _ .refl
    · next hn₀ => rw [if_neg hn₀] at hn; exact absurd hn hn₀

/-- An entity of a later registry has grown out of one of the earlier registry, or its name is
new. -/
theorem exists_grows_of_write (h : r.Write r') {e' : Entity} (he' : e' ∈ r'.entities) :
    (∃ e ∈ r.entities, e.Grows e') ∨ r.contains e'.name = false := by
  have hmodify (other : String) {g : Entity → Entity} (hg : ∀ e : Entity, e.Grows (g e))
      (he' : e' ∈ (r.modify other g).entities) : ∃ e ∈ r.entities, e.Grows e' := by
    obtain ⟨e, he, rfl⟩ := List.mem_map.1 he'
    refine ⟨e, he, ?_⟩
    split
    · exact hg e
    · exact .refl
  cases h with
  | register other =>
      unfold register at he'
      split at he'
      · exact .inl ⟨e', he', .refl⟩
      · next hnew =>
          rcases List.mem_append.1 he' with he' | he'
          · exact .inl ⟨e', he', .refl⟩
          · obtain rfl := List.mem_singleton.1 he'
            exact .inr (by simpa using hnew)
  | addUse other used => exact .inl (hmodify other (fun e => e.grows_addUse used) he')
  | addProperty other p => exact .inl (hmodify other (fun e => e.grows_addProperty p) he')

theorem of_write (hf : Entity.Lasting f) (h : Done f name r) (hw : r.Write r') :
    Done f name r' := by
  refine ⟨hw.grows.contains h.contains, fun e' he' hn => ?_⟩
  obtain ⟨e, he, hgrows⟩ | hnew := exists_grows_of_write hw he'
  · have hfixed : f e = e := h.fixed e he (hgrows.name_eq.symm.trans hn)
    exact hf e e' (hfixed.symm ▸ hgrows)
  · rw [hn, h.contains] at hnew
    cases hnew

/-- What has been done is not undone by anything that is written later. -/
theorem of_writes (hf : Entity.Lasting f) (h : Done f name r)
    (hw : Relation.ReflTransGen Write r r') : Done f name r' := by
  induction hw with
  | refl => exact h
  | tail _ hw ih => exact ih.of_write hf hw

end Done

end Registry

namespace Building

variable {α β : Type} {b b' : Build}

/-- The walk, made from one state, ends as it does from the other one, uses the same up, and
leaves the registry as it is. -/
structure Replays (m : Building α) (b b' : Build) : Prop where
  ends : (outcome m b').1 = (outcome m b).1
  completed : (outcome m b').2.completed = (outcome m b).2.completed
  registry : (outcome m b').2.registry = b'.registry

/-- Once the walk has been made from a state, making it again changes nothing, with the same
schemas used up as at first and whatever has been written to the registry since. -/
def Absorbed (m : Building α) (b : Build) : Prop :=
  ∀ b' : Build, b'.completed = b.completed →
    Relation.ReflTransGen Registry.Write (outcome m b).2.registry b'.registry → Replays m b b'

/-- A walk for the entity of a name that consists of writes, all of which are absorbed when they
are made again. -/
structure Absorbs (entity : String) (m : Building α) : Prop where
  writes : Keeps Build.Writes m
  again : ∀ b : Build, b.registry.contains entity = true → Absorbed m b

/-- A walk that leaves the state alone and does not look at it is absorbed. -/
theorem Absorbed.of_still {m : Building α} {x : Except Fault α} {b : Build}
    (h : ∀ b, (outcome m b).1 = x ∧ b.Same (outcome m b).2) : Absorbed m b := by
  intro b' hcompleted _
  exact ⟨(h b').1.trans (h b).1.symm,
    (h b').2.2.trans (hcompleted.trans (h b).2.2.symm), (h b').2.1⟩

theorem Absorbed.bind {m : Building α} {f : α → Building β}
    (hwrites : ∀ a, Keeps Build.Writes (f a)) (hm : Absorbed m b)
    (hf : ∀ a b₁, Yields m b a b₁ → Absorbed (f a) b₁) : Absorbed (m >>= f) b := by
  intro b' hcompleted hw
  rw [outcome_bind] at hw
  rcases ho : outcome m b with ⟨e | a, b₁⟩ <;> rw [ho] at hw
  · obtain ⟨hends, hused, hreg⟩ := hm b' hcompleted (by rw [ho]; exact hw)
    rw [ho] at hends hused
    rcases ho' : outcome m b' with ⟨x, b₁'⟩
    rw [ho'] at hends hused hreg
    obtain rfl : x = .error e := hends
    exact ⟨by simp [outcome_bind, ho, ho'], by simpa [outcome_bind, ho, ho'] using hused,
      by simpa [outcome_bind, ho'] using hreg⟩
  · -- The second walk comes to a state between its two parts that the second part may start at.
    have hmid : Relation.ReflTransGen Registry.Write (outcome m b).2.registry b'.registry := by
      rw [ho]
      exact (hwrites a b₁).registry.trans hw
    obtain ⟨hends, hused, hreg⟩ := hm b' hcompleted hmid
    rw [ho] at hends hused
    rcases ho' : outcome m b' with ⟨x, b₁'⟩
    rw [ho'] at hends hused hreg
    obtain rfl : x = .ok a := hends
    obtain ⟨hends₂, hused₂, hreg₂⟩ := hf a b₁ ho b₁' hused (hreg ▸ hw)
    exact ⟨by simpa [outcome_bind, ho, ho'] using hends₂,
      by simpa [outcome_bind, ho, ho'] using hused₂,
      by simpa [outcome_bind, ho'] using hreg₂.trans hreg⟩

namespace Absorbs

variable {entity : String}

theorem pure (a : α) : Absorbs entity (Pure.pure a) :=
  ⟨Keeps.pure a, fun _ _ => .of_still fun _ => ⟨rfl, rfl, rfl⟩⟩

theorem throw (e : Fault) : Absorbs entity (MonadExcept.throw e : Building α) :=
  ⟨Keeps.throw e, fun _ _ => .of_still fun _ => ⟨rfl, rfl, rfl⟩⟩

theorem lift (x : Except Fault α) : Absorbs entity (liftM x : Building α) :=
  ⟨Keeps.lift x, fun _ _ => .of_still fun _ => ⟨rfl, rfl, rfl⟩⟩

theorem bind {m : Building α} {f : α → Building β} (hm : Absorbs entity m)
    (hf : ∀ a, Absorbs entity (f a)) : Absorbs entity (m >>= f) := by
  refine ⟨hm.writes.bind fun a => (hf a).writes, fun b hb => ?_⟩
  refine (hm.again b hb).bind (fun a => (hf a).writes) fun a b₁ h => (hf a).again b₁ ?_
  have hgrows : b.Grows b₁ := (hm.writes.of_yields h).of_spans
  exact hgrows.registry.contains hb

theorem note (level : Level) (origin message : String) :
    Absorbs entity (Building.note level origin message) :=
  ⟨keeps_note level origin message, fun _ _ => .of_still fun _ => ⟨rfl, rfl, rfl⟩⟩

/-- A change of the entity is absorbed as soon as the entity is registered. -/
theorem modifyEntity {f : Entity → Entity} (hf : Entity.Lasting f)
    (hname : ∀ e, (f e).name = e.name) (hwrite : ∀ r : Registry, r.Write (r.modify entity f)) :
    Absorbs entity (modifyRegistry (·.modify entity f)) := by
  refine ⟨keeps_modifyRegistry hwrite, fun b hb b' hcompleted hw => ⟨rfl, hcompleted, ?_⟩⟩
  exact ((Registry.Done.of_modify hf hname hb).of_writes hf hw).modify_eq

end Absorbs

theorem compositional_absorbs (entity : String) : Compositional fun _ => Absorbs entity where
  pure := Absorbs.pure
  throw := Absorbs.throw
  lift := Absorbs.lift
  bind := Absorbs.bind

/-- Extending the entity is absorbed if making the entities that it refers to is. -/
theorem absorbs_extend {refer : Value → Building String} {entity : String}
    (hr : ∀ p, Absorbs entity (refer p)) (doc : Document) (c : Schema.Contribution) :
    Absorbs entity (extend refer doc entity c) :=
  (compositional_absorbs entity).extend hr .note
    (fun target => .modifyEntity (Entity.lasting_addUse target) (fun e => e.name_addUse target)
      fun r => .addUse r entity target)
    (fun p => .modifyEntity (Entity.lasting_addProperty p) (fun e => e.name_addProperty p)
      fun r => .addProperty r entity p) doc c

theorem Replays.of_outcome {m m' : Building α} {c c' : Build} (h : Replays m c c')
    (hm : outcome m' b = outcome m c) (hm' : outcome m' b' = outcome m c')
    (hreg : b'.registry = c'.registry) : Replays m' b b' :=
  ⟨by rw [hm, hm', h.ends], by rw [hm, hm', h.completed], by rw [hm', h.registry, hreg]⟩

/-- Which of two walks is made may depend on what is used up. -/
theorem Absorbs.ifUsed {entity : String} {used : String × Value} {m m' : Building α}
    (hm : Absorbs entity m) (hm' : Absorbs entity m') :
    Absorbs entity (get >>= fun b : Build => if b.completed.contains used then m else m') := by
  refine ⟨Keeps.get.bind fun b => ?_, fun b hb b' hcompleted hw => ?_⟩
  · split
    · exact hm.writes
    · exact hm'.writes
  · have hrun (c : Build) :
        outcome (get >>= fun b : Build => if b.completed.contains used then m else m') c =
          outcome (if c.completed.contains used then m else m') c :=
      outcome_bind _ _ c
    have hrun' := hrun b'
    rw [hcompleted] at hrun'
    rw [hrun b] at hw
    refine Replays.of_outcome ?_ (hrun b) hrun' rfl
    by_cases hused : b.completed.contains used = true
    · rw [if_pos hused] at hw ⊢
      exact hm.again b hb b' hcompleted hw
    · rw [if_neg hused] at hw ⊢
      exact hm'.again b hb b' hcompleted hw

theorem Absorbs.useUp {entity : String} (used : String × Value) :
    Absorbs entity (modify fun b : Build => { b with completed := used :: b.completed }) := by
  refine ⟨Keeps.modify fun b => Build.Spans.of_write (.useUp b used), ?_⟩
  exact fun b _ b' hcompleted _ => ⟨rfl, congrArg (used :: ·) hcompleted, rfl⟩

/-- What registers a name first is absorbed if the rest is once the name is registered. -/
theorem Absorbs.register_bind {name : String} {m : Building α} (hm : Absorbs name m)
    (b : Build) : Absorbed (register name >>= fun _ => m) b := by
  obtain ⟨⟨⟩, b₁, h₁⟩ := succeeds_register name b
  obtain ⟨hreg, hcompleted₁⟩ := yields_register h₁
  have hcontains : b₁.registry.contains name = true := by
    rw [hreg, Registry.contains_register]
    simp
  refine .bind (fun _ => hm.writes) (fun b' hcompleted hw => ?_) fun _ b₂ h₂ => ?_
  · have hrun : outcome (register name) b = (.ok (), b₁) := h₁
    rw [hrun] at hw
    obtain ⟨⟨⟩, b₁', h₁'⟩ := succeeds_register name b'
    obtain ⟨hreg', hcompleted'⟩ := yields_register h₁'
    have hrun' : outcome (register name) b' = (.ok (), b₁') := h₁'
    refine ⟨by rw [hrun, hrun'], ?_, ?_⟩
    · rw [hrun, hrun']
      exact hcompleted'.trans (hcompleted.trans hcompleted₁.symm)
    · rw [hrun']
      exact hreg'.trans (if_pos (Registry.contains_of_writes hw hcontains))
  · obtain rfl : b₂ = b₁ := congrArg Prod.snd (h₂.symm.trans h₁)
    exact hm.again b₂ hcontains

/-- Making an entity is absorbed, from any state. -/
theorem absorbed_materialize (doc : Document) (room ancestry : List String) (name : String)
    (schema : Value) (b : Build) : Absorbed (materialize doc room ancestry name schema) b := by
  induction room, ancestry, name, schema using materialize.induct generalizing b with
  | case1 room ancestry name schema hname ih =>
      rw [materialize, dif_pos hname]
      refine Absorbs.register_bind (.ifUsed (.pure _) ?_) b
      refine ((compositional_absorbs name).forIn _ _ fun c _ _ => ?_).bind fun _ => .useUp _
      refine (absorbs_extend (fun p => ?_) doc c).bind fun _ => .pure _
      refine (Absorbs.lift _).bind fun found => ?_
      exact Absorbs.bind ⟨keeps_materialize doc _ _ _ _, fun b _ => ih found.1 found.2 b⟩
        fun _ => .pure _
  | case2 room ancestry name schema hname =>
      rw [materialize, dif_neg hname]
      exact .of_still fun _ => ⟨rfl, rfl, rfl⟩

/-- An entity that is there and whose schema is used up is not made again. -/
theorem exists_yields_materialize_of_used {doc : Document} {room ancestry : List String}
    {name : String} {schema : Value} (h : name ∈ room →
      b.registry.contains name = true ∧ (name, schema) ∈ b.completed) :
    ∃ b₁, Yields (materialize doc room ancestry name schema) b () b₁ ∧ b.Same b₁ := by
  by_cases hname : name ∈ room
  · obtain ⟨hthere, hused⟩ := h hname
    obtain ⟨_, b₁, hr⟩ := succeeds_register name b
    obtain ⟨hreg, hcompleted⟩ := yields_register hr
    rw [materialize, dif_pos hname]
    refine ⟨_, yields_bind.2 ⟨_, _, hr, yields_bind.2 ⟨_, _, yields_get.2 ⟨rfl, rfl⟩, ?_⟩⟩,
      hreg.trans (if_pos hthere), hcompleted⟩
    rw [if_pos (by rw [hcompleted]; exact List.contains_iff_mem.2 hused)]
    exact yields_pure.2 ⟨rfl, rfl⟩
  · rw [materialize, dif_neg hname]
    exact ⟨_, yields_modify.2 rfl, rfl, rfl⟩

/-- Making an entity again changes nothing.  Whatever the document, the registry and the chain of
names above, and whether the first walk succeeds or fails halfway: made again on the registry that
the first walk leaves, with nothing used up, the walk ends as it did at first, with the same fault
if it failed, and leaves the registry as it is.  If the first walk succeeds, it may also be made
again with all that it has used up, and changes nothing either. -/
theorem ofSchema_again_changes_nothing (doc : Document) (name : String) (schema : Value)
    (ancestry : List String) (registry : Registry) (log log' : Array Record) :
    let made := outcome (ofSchema doc name schema ancestry)
    let first := made { registry := registry, log := log }
    let afresh := made { registry := first.2.registry, log := log' }
    let again := made first.2
    (afresh.1 = first.1 ∧ afresh.2.registry = first.2.registry) ∧
      (first.1 = .ok () → again.1 = .ok () ∧ again.2.registry = first.2.registry ∧
        again.2.completed = first.2.completed) := by
  intro made first afresh again
  refine ⟨?_, fun hfirst => ?_⟩
  · obtain ⟨hends, -, hreg⟩ := absorbed_materialize doc
      (ancestry.foldl List.erase (roomFor doc name schema)) ancestry name schema
      { registry := registry, log := log } { registry := first.2.registry, log := log' } rfl .refl
    exact ⟨hends, hreg⟩
  · have hused : ∃ b₁, Yields (ofSchema doc name schema ancestry) first.2 () b₁ ∧
        first.2.Same b₁ :=
      exists_yields_materialize_of_used fun hroom =>
        used_of_materialize hroom (yields_outcome hfirst)
    obtain ⟨b₁, hyields, hreg, hcompleted⟩ := hused
    have hagain : again = (.ok (), b₁) := hyields
    rw [hagain]
    exact ⟨rfl, hreg, hcompleted⟩

/-- The schema refers to itself and is composed in a circle; its entity is made, and the theorem is
about more than failures. -/
example : let first := outcome (ofSchema circle "Node" circleSchema []) {}
    first.1 = .ok () ∧ first.2.registry.names = ["Node"] := by
  decide +kernel

end Building

end OpenApiClient
