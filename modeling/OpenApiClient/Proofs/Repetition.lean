import OpenApiClient.Parameter.Extraction
import OpenApiClient.Proofs.Making

/-!
# Walks that are made twice

The body of a request is looked at twice for every method.  The second look finds every entity
that the first one has made used up, so it gives the same and leaves the registry alone.

This is a property of walks that is put together like the walks themselves.  A body is looked at
by making entities only, so it has every such property that the making of an entity has.
-/

namespace OpenApiClient

open Walk

namespace Walk.Compositional

variable {P : (α : Type) → Building α → Prop} {doc : Document} (h : Compositional P)
  (hp : ∀ p, P String (Building.ofPointer doc p []))

include h hp

theorem itemsOf (items : Value) : P Value (Parameter.itemsOf doc items) := by
  unfold Parameter.itemsOf
  split
  · refine h.bind (h.lift _) fun target => ?_
    cases target with
    | some node => exact h.pure _
    | none => exact h.bind (hp _) fun _ => h.pure _
  · exact h.pure _

theorem ofField (name : String) (schema : Value) (required : Bool) :
    P Parameter (Parameter.ofField doc name schema required) := by
  unfold Parameter.ofField
  dsimp only
  split
  · exact h.pure _
  · split
    · refine h.bind (h.lift _) fun target => ?_
      cases target with
      | some node => exact h.pure _
      | none => exact h.bind (hp _) fun _ => h.pure _
    · split
      · exact h.bind (h.itemsOf hp _) fun _ => h.pure _
      · exact h.pure _

/-- The body of a request is looked at by making entities, and by nothing else that changes the
state. -/
theorem inBody (o : Operation) : P _ (Parameter.inBody doc o) := by
  unfold Parameter.inBody
  refine h.bind (h.lift _) fun media => ?_
  cases media with
  | none => exact h.pure _
  | some media =>
      refine h.bind (h.lift _) fun settled => ?_
      split
      · exact h.pure _
      · refine h.bind (h.lift _) fun names => ?_
        refine h.bind (h.mapM _ fun name => ?_) fun fields => h.pure _
        refine h.bind (h.lift _) fun schema => ?_
        split
        · exact h.ofField hp _ _ _
        · exact h.throw _

theorem ofMethod (hr : P Registry Building.registry) (kind : ClassKind) (className : String)
    (o : Operation) : P _ (Parameter.ofMethod doc kind className o) := by
  refine h.bind hr fun r => h.bind (h.lift _) fun path => h.bind (h.lift _) fun query => ?_
  exact h.bind (h.inBody hp o) fun body => h.pure _

end Walk.Compositional

namespace Building

variable {α β : Type} {doc : Document}

theorem keeps_inBody {R : Build → Build → Prop} [Build.Spans R] (o : Operation) :
    Keeps R (Parameter.inBody doc o) :=
  compositional_keeps.inBody (fun p => keeps_ofPointer doc p []) o

/-- From a state on, the walk gives `a` and changes nothing. -/
def Settled (m : Building α) (a : α) (b : Build) : Prop :=
  ∀ b₁ a₁ b₂, b.Grows b₁ → Yields m b₁ a₁ b₂ → a₁ = a ∧ b₁.Same b₂

/-- The walk is settled once it has been made. -/
def Repeatable (m : Building α) : Prop :=
  Keeps Build.Grows m ∧ ∀ b a b', Yields m b a b' → Settled m a b'

theorem Settled.mono {m : Building α} {a : α} {b b' : Build} (h : Settled m a b)
    (hg : b.Grows b') : Settled m a b' :=
  fun b₁ a₁ b₂ h₁ hm => h b₁ a₁ b₂ (trans_of Build.Grows hg h₁) hm

theorem Settled.bind {m : Building α} {f : α → Building β} {a : α} {c : β} {b : Build}
    (hm : Settled m a b) (hf : Settled (f a) c b) : Settled (m >>= f) c b := by
  intro b₁ c₁ b₂ hg h
  obtain ⟨a₁, b₃, h₁, h₂⟩ := yields_bind.1 h
  obtain ⟨rfl, hsame⟩ := hm b₁ a₁ b₃ hg h₁
  obtain ⟨rfl, hsame'⟩ := hf b₃ c₁ b₂ (trans_of Build.Grows hg hsame.grows) h₂
  exact ⟨rfl, hsame.trans hsame'⟩

namespace Repeatable

theorem pure (a : α) : Repeatable (Pure.pure a) := by
  refine ⟨Keeps.pure a, fun b a' b' h b₁ a₁ b₂ hg h' => ?_⟩
  obtain ⟨rfl, -⟩ := yields_pure.1 h
  obtain ⟨rfl, rfl⟩ := yields_pure.1 h'
  exact ⟨rfl, rfl, rfl⟩

theorem throw (e : Fault) : Repeatable (MonadExcept.throw e : Building α) :=
  ⟨Keeps.throw e, fun _ _ _ h => absurd h not_yields_throw⟩

theorem lift (x : Except Fault α) : Repeatable (liftM x : Building α) := by
  refine ⟨Keeps.lift x, fun b a' b' h b₁ a₁ b₂ hg h' => ?_⟩
  obtain ⟨hx, -⟩ := yields_lift.1 h
  obtain ⟨hx', rfl⟩ := yields_lift.1 h'
  exact ⟨Except.ok.inj (hx'.symm.trans hx), rfl, rfl⟩

theorem bind {m : Building α} {f : α → Building β} (hm : Repeatable m)
    (hf : ∀ a, Repeatable (f a)) : Repeatable (m >>= f) := by
  refine ⟨hm.1.bind fun a => (hf a).1, fun b c b' h => ?_⟩
  obtain ⟨a, b₁, h₁, h₂⟩ := yields_bind.1 h
  exact ((hm.2 b a b₁ h₁).mono ((hf a).1.of_yields h₂)).bind ((hf a).2 b₁ c b' h₂)

/-- An entity that has been made is used up, and making it again does nothing. -/
theorem ofPointer (p : Value) : Repeatable (Building.ofPointer doc p []) := by
  refine ⟨keeps_ofPointer doc p [], fun b name b' h b₁ name₁ b₂ hg h' => ?_⟩
  obtain ⟨v, hv, hm⟩ := yields_ofPointer h
  obtain ⟨v', hv', hm'⟩ := yields_ofPointer h'
  obtain ⟨rfl, rfl⟩ := Prod.mk.inj (Option.some.inj (hv.symm.trans hv'))
  refine ⟨rfl, ?_⟩
  have hroom : name ∈ roomFor doc name v := mem_roomFor doc name v
  obtain ⟨hreg, hused⟩ := used_of_materialize hroom hm
  obtain ⟨hout, -⟩ | ⟨-, b₃, hr, hcomp, ⟨-, rfl⟩ | ⟨hfresh, -⟩⟩ := yields_materialize hm'
  · exact absurd hroom hout
  · refine ⟨?_, hcomp⟩
    rw [hr, Registry.register, if_pos (hg.registry.contains hreg)]
  · exact absurd (hg.completed.subset hused) hfresh

end Repeatable

theorem compositional_repeatable : Compositional fun _ => Repeatable where
  pure := Repeatable.pure
  throw := Repeatable.throw
  lift := Repeatable.lift
  bind := Repeatable.bind

theorem repeatable_inBody (o : Operation) : Repeatable (Parameter.inBody doc o) :=
  compositional_repeatable.inBody Repeatable.ofPointer o

end Building

end OpenApiClient
