import OpenApiClient.Entity.Building
import Mathlib.Data.List.Forall2
import Mathlib.Order.Defs.Unbundled

/-!
# How walks end, and what they keep

A walk has a state, may fail, and leaves what it has done to its state when it fails.  Two
readings of a walk are enough for everything that is proved of them.  `Yields m s a s'` says
that the walk `m` starts at the state `s`, gives `a` and ends at `s'`; one lemma for each way
to put walks together takes a success apart.  `Keeps R m` says that the last state of the walk
stands in the relation `R` to the first one, however the walk ends; it is read off the parts of
a walk as soon as `R` is a preorder.
-/

namespace OpenApiClient.Walk

variable {σ α β : Type}

theorem map_eq_ok {f : α → β} {x : Except Fault α} {b : β} :
    x.map f = .ok b ↔ ∃ a, x = .ok a ∧ f a = b := by
  cases x <;> simp [Except.map]

theorem toOption_eq_some {x : Except Fault α} {a : α} : x.toOption = some a ↔ x = .ok a := by
  cases x <;> simp [Except.toOption]

theorem bind_eq_ok {f : α → Except Fault β} {x : Except Fault α} {b : β} :
    x >>= f = .ok b ↔ ∃ a, x = .ok a ∧ f a = .ok b := by
  cases x <;> simp [bind, Except.bind]

theorem exists_left_of_forall₂ {R : α → β → Prop} {l : List α} {bs : List β}
    (h : List.Forall₂ R l bs) {b : β} (hb : b ∈ bs) : ∃ a ∈ l, R a b := by
  induction h with
  | nil => cases hb
  | cons hab _ ih =>
      rcases List.mem_cons.1 hb with rfl | hb
      · exact ⟨_, List.mem_cons_self, hab⟩
      · obtain ⟨a, ha, hab⟩ := ih hb
        exact ⟨a, List.mem_cons_of_mem _ ha, hab⟩

theorem exists_right_of_forall₂ {R : α → β → Prop} {l : List α} {bs : List β}
    (h : List.Forall₂ R l bs) {a : α} (ha : a ∈ l) : ∃ b ∈ bs, R a b :=
  exists_left_of_forall₂ (R := fun b a => R a b) h.flip ha

theorem map_eq_of_forall₂ {γ : Type} {R : α → β → Prop} {f : α → γ} {g : β → γ}
    (hfg : ∀ a b, R a b → g b = f a) {l : List α} {bs : List β} (h : List.Forall₂ R l bs) :
    bs.map g = l.map f := by
  induction h with
  | nil => rfl
  | cons hab _ ih => rw [List.map_cons, List.map_cons, hfg _ _ hab, ih]

/-- What is read off a list is read off its members one by one. -/
theorem forall₂_of_mapM_eq_ok {f : α → Except Fault β} {l : List α} {bs : List β}
    (h : l.mapM f = .ok bs) : List.Forall₂ (fun a b => f a = .ok b) l bs := by
  induction l generalizing bs with
  | nil =>
      obtain rfl := Except.ok.inj h
      exact .nil
  | cons a l ih =>
      rw [List.mapM_cons] at h
      obtain ⟨b, hb, h⟩ := bind_eq_ok.1 h
      obtain ⟨bs', hbs, h⟩ := bind_eq_ok.1 h
      obtain rfl := Except.ok.inj h
      exact .cons hb (ih hbs)

/-- What is read off a list is read off its members. -/
theorem exists_of_mapM_eq_ok {f : α → Except Fault β} {l : List α} {bs : List β}
    (h : l.mapM f = .ok bs) {b : β} (hb : b ∈ bs) : ∃ a ∈ l, f a = .ok b :=
  exists_left_of_forall₂ (forall₂_of_mapM_eq_ok h) hb

/-- Every member of a list has been read. -/
theorem exists_mem_of_mapM_eq_ok {f : α → Except Fault β} {l : List α} {bs : List β}
    (h : l.mapM f = .ok bs) {a : α} (ha : a ∈ l) : ∃ b ∈ bs, f a = .ok b :=
  exists_right_of_forall₂ (forall₂_of_mapM_eq_ok h) ha

/-- A list is read if all of its members can be. -/
theorem mapM_eq_ok {f : α → Except Fault β} {g : α → β} {l : List α}
    (h : ∀ a ∈ l, f a = .ok (g a)) : l.mapM f = .ok (l.map g) := by
  induction l with
  | nil => rfl
  | cons a l ih =>
      rw [List.mapM_cons, h a List.mem_cons_self, ih fun b hb => h b (List.mem_cons_of_mem _ hb)]
      rfl

/-- A list is filtered by the tests of its members, if all of them can be made. -/
theorem filterM_eq_ok {f : α → Except Fault Bool} {p : α → Bool} {l : List α}
    (h : ∀ a ∈ l, f a = .ok (p a)) : l.filterM f = .ok (l.filter p) := by
  -- What has been kept is held in reverse.
  suffices haux : ∀ kept, l.filterAuxM f kept = .ok ((l.filter p).reverse ++ kept) by
    unfold List.filterM
    rw [haux []]
    simp [bind, Except.bind, pure, Except.pure]
  induction l with
  | nil => exact fun _ => rfl
  | cons a l ih =>
      intro kept
      unfold List.filterAuxM
      rw [h a List.mem_cons_self]
      refine (ih (fun b hb => h b (List.mem_cons_of_mem _ hb)) _).trans ?_
      rw [List.filter_cons]
      cases p a <;> simp

/-- How a walk ends, and at which state. -/
def outcome (m : ExceptT Fault (StateM σ) α) (s : σ) : Except Fault α × σ := m.run s

theorem outcome_bind (m : ExceptT Fault (StateM σ) α) (f : α → ExceptT Fault (StateM σ) β)
    (s : σ) :
    outcome (m >>= f) s = match outcome m s with
      | (.ok a, s') => outcome (f a) s'
      | (.error e, s') => (.error e, s') := by
  change (ExceptT.bindCont f (outcome m s).1) (outcome m s).2 = _
  rcases outcome m s with ⟨_ | a, s'⟩ <;> rfl

theorem outcome_rethrow (m : ExceptT Fault (StateM σ) α) (g : Fault → Fault) (s : σ) :
    outcome (tryCatch m fun e => throw (g e)) s = match outcome m s with
      | (.ok a, s') => (.ok a, s')
      | (.error e, s') => (.error (g e), s') := by
  simp only [outcome, tryCatch, tryCatchThe, MonadExceptOf.tryCatch, ExceptT.tryCatch,
    ExceptT.run, ExceptT.mk, bind, StateT.bind]
  rcases m s with ⟨_ | a, s'⟩ <;> rfl

/-- The walk gives `a` and leads from the state `s` to the state `s'`. -/
def Yields (m : ExceptT Fault (StateM σ) α) (s : σ) (a : α) (s' : σ) : Prop :=
  outcome m s = (.ok a, s')

theorem yields_outcome {m : ExceptT Fault (StateM σ) α} {s : σ} {a : α}
    (h : (outcome m s).1 = .ok a) : Yields m s a (outcome m s).2 :=
  Prod.ext h rfl

theorem yields_pure {a c : α} {s s' : σ} :
    Yields (pure a) s c s' ↔ c = a ∧ s' = s := by
  constructor
  · intro h
    cases h
    exact ⟨rfl, rfl⟩
  · rintro ⟨rfl, rfl⟩
    rfl

theorem not_yields_throw {e : Fault} {c : α} {s s' : σ} :
    ¬ Yields (throw e : ExceptT Fault (StateM σ) α) s c s' := by
  intro h
  cases h

/-- A walk in two parts succeeds if the first part does and the second one does from there. -/
theorem yields_bind {m : ExceptT Fault (StateM σ) α} {f : α → ExceptT Fault (StateM σ) β}
    {s s'' : σ} {c : β} :
    Yields (m >>= f) s c s'' ↔ ∃ a s', Yields m s a s' ∧ Yields (f a) s' c s'' := by
  unfold Yields
  rw [outcome_bind]
  rcases outcome m s with ⟨e | a, s'⟩
  · simp
  · simp only [Prod.mk.injEq, Except.ok.injEq]
    constructor
    · exact fun h => ⟨a, s', ⟨rfl, rfl⟩, h⟩
    · rintro ⟨_, _, ⟨rfl, rfl⟩, h⟩
      exact h

theorem yields_map {f : α → β} {m : ExceptT Fault (StateM σ) α} {s s' : σ} {c : β} :
    Yields (f <$> m) s c s' ↔ ∃ a, Yields m s a s' ∧ f a = c := by
  rw [map_eq_pure_bind, yields_bind]
  constructor
  · rintro ⟨a, s₁, h, hpure⟩
    obtain ⟨rfl, rfl⟩ := yields_pure.1 hpure
    exact ⟨a, h, rfl⟩
  · rintro ⟨a, h, rfl⟩
    exact ⟨a, s', h, yields_pure.2 ⟨rfl, rfl⟩⟩

theorem yields_lift {x : Except Fault α} {a : α} {s s' : σ} :
    Yields (liftM x : ExceptT Fault (StateM σ) α) s a s' ↔ x = .ok a ∧ s' = s := by
  change (x, s) = (.ok a, s') ↔ _
  simp [eq_comm]

theorem yields_get {a s s' : σ} :
    Yields (get : ExceptT Fault (StateM σ) σ) s a s' ↔ a = s ∧ s' = s := by
  change ((Except.ok s : Except Fault σ), s) = (.ok a, s') ↔ _
  simp [eq_comm]

theorem yields_modify {f : σ → σ} {u : Unit} {s s' : σ} :
    Yields (modify f : ExceptT Fault (StateM σ) Unit) s u s' ↔ s' = f s := by
  change ((Except.ok () : Except Fault Unit), f s) = (.ok u, s') ↔ _
  simp [eq_comm]

theorem yields_rethrow {m : ExceptT Fault (StateM σ) α} {g : Fault → Fault} {s s' : σ} {a : α} :
    Yields (tryCatch m fun e => throw (g e)) s a s' ↔ Yields m s a s' := by
  unfold Yields
  rw [outcome_rethrow]
  rcases outcome m s with ⟨e | a, s'⟩ <;> simp

/-- One step for each member of a list leads from a state to another, with what the steps
give. -/
inductive Along (step : α → σ → β → σ → Prop) : List α → σ → List β → σ → Prop
  | nil (s : σ) : Along step [] s [] s
  | cons {a : α} {l : List α} {b : β} {bs : List β} {s s' s'' : σ} (h : step a s b s')
      (hrest : Along step l s' bs s'') : Along step (a :: l) s (b :: bs) s''

/-- What holds at the start and is handed on by every step holds at the end. -/
theorem Along.invariant {step : α → σ → β → σ → Prop} {l : List α} {s s' : σ} {bs : List β}
    {I : List α → σ → Prop} (h : Along step l s bs s') (hstart : I [] s)
    (hstep : ∀ done a s b s', done ++ [a] <+: l → I done s → step a s b s' →
      I (done ++ [a]) s') :
    I l s' := by
  -- The list is walked from the front: `done` has been walked, `rest` has not.
  suffices hrest : ∀ rest s bs s', Along step rest s bs s' →
      ∀ done, done ++ rest = l → I done s → I l s' from hrest l s bs s' h [] rfl hstart
  intro rest s bs s' h
  induction h with
  | nil s =>
      intro done hl hI
      rwa [← hl, List.append_nil]
  | @cons a rest b bs s s₁ s₂ h hrest ih =>
      intro done hl hI
      have hl' : (done ++ [a]) ++ rest = l := by rw [← hl, List.append_assoc]; rfl
      exact ih (done ++ [a]) hl' (hstep done a s b s₁ ⟨rest, hl'⟩ hI h)

theorem Along.append {step : α → σ → β → σ → Prop} {l l' : List α} {s s' s'' : σ}
    {bs bs' : List β} (h : Along step l s bs s') (h' : Along step l' s' bs' s'') :
    Along step (l ++ l') s (bs ++ bs') s'' := by
  induction h with
  | nil => exact h'
  | cons h hrest ih => exact .cons h (ih h')

theorem Along.map {γ δ : Type} {step : α → σ → β → σ → Prop} {step' : γ → σ → δ → σ → Prop}
    {f : α → γ} {g : β → δ} (hstep : ∀ a s b s', step a s b s' → step' (f a) s (g b) s')
    {l : List α} {s s' : σ} {bs : List β} (h : Along step l s bs s') :
    Along step' (l.map f) s (bs.map g) s' := by
  induction h with
  | nil => exact .nil _
  | cons h hrest ih => exact .cons (hstep _ _ _ _ h) ih

theorem Along.imp {step step' : α → σ → β → σ → Prop}
    {l : List α} {s s' : σ} {bs : List β} (h : Along step l s bs s')
    (hstep : ∀ a s b s', step a s b s' → step' a s b s') : Along step' l s bs s' := by
  simpa using h.map (f := id) (g := id) hstep

/-- Steps that consist of steps themselves. -/
theorem Along.flatMap {γ δ : Type} {step : α → σ → β → σ → Prop} {step' : γ → σ → δ → σ → Prop}
    {f : α → List γ} {g : β → List δ}
    (hstep : ∀ a s b s', step a s b s' → Along step' (f a) s (g b) s')
    {l : List α} {s s' : σ} {bs : List β} (h : Along step l s bs s') :
    Along step' (l.flatMap f) s (bs.flatMap g) s' := by
  induction h with
  | nil => exact .nil _
  | cons h hrest ih =>
      rw [List.flatMap_cons, List.flatMap_cons]
      exact (hstep _ _ _ _ h).append ih

/-- What every step establishes and all steps keep holds of all steps at the end. -/
theorem Along.forall₂ {step : α → σ → β → σ → Prop} {P : σ → α → β → Prop}
    (hstep : ∀ a s b s', step a s b s' → P s' a b)
    (hkeep : ∀ a s b s', step a s b s' → ∀ c d, P s c d → P s' c d)
    {l : List α} {s s' : σ} {bs : List β} (h : Along step l s bs s') :
    List.Forall₂ (P s') l bs := by
  induction h with
  | nil => exact .nil
  | @cons a l b bs s s₁ s₂ h hrest ih =>
      refine .cons ?_ ih
      exact hrest.invariant (I := fun _ s => P s a b) (hstep a s b s₁ h)
        fun _ a' t b' t' _ hP ht => hkeep a' t b' t' ht a b hP

/-- What a step gives is given after the steps before it and before those after it. -/
theorem Along.exists_step {step : α → σ → β → σ → Prop} {l : List α} {s s' : σ} {bs : List β}
    (h : Along step l s bs s') {b : β} (hb : b ∈ bs) :
    ∃ done a rest bs₁ bs₂ s₁ s₂, l = done ++ a :: rest ∧ Along step done s bs₁ s₁ ∧
      step a s₁ b s₂ ∧ Along step rest s₂ bs₂ s' := by
  induction h with
  | nil => cases hb
  | @cons a l c bs s s₁ s₂ h hrest ih =>
      rcases List.mem_cons.1 hb with rfl | hb
      · exact ⟨[], a, l, [], bs, s, s₁, rfl, .nil s, h, hrest⟩
      · obtain ⟨done, a', rest, bs₁, bs₂, t₁, t₂, rfl, hdone, hstep, hend⟩ := ih hb
        exact ⟨a :: done, a', rest, c :: bs₁, bs₂, t₁, t₂, rfl, .cons h hdone, hstep, hend⟩

theorem yields_mapM {f : α → ExceptT Fault (StateM σ) β} {l : List α} {s s' : σ} {bs : List β} :
    Yields (l.mapM f) s bs s' ↔ Along (fun a => Yields (f a)) l s bs s' := by
  induction l generalizing s bs with
  | nil =>
      rw [List.mapM_nil, yields_pure]
      constructor
      · rintro ⟨rfl, rfl⟩
        exact .nil s'
      · intro h
        cases h
        exact ⟨rfl, rfl⟩
  | cons a l ih =>
      rw [List.mapM_cons, yields_bind]
      constructor
      · rintro ⟨b, s₁, hb, h⟩
        obtain ⟨bs₁, s₂, hbs, hpure⟩ := yields_bind.1 h
        obtain ⟨rfl, rfl⟩ := yields_pure.1 hpure
        exact .cons hb (ih.1 hbs)
      · intro h
        cases h with
        | cons hb hrest =>
            refine ⟨_, _, hb, yields_bind.2 ⟨_, _, ih.2 hrest, ?_⟩⟩
            exact yields_pure.2 ⟨rfl, rfl⟩

theorem along_of_yields_forIn {f : α → ExceptT Fault (StateM σ) Unit} {l : List α} {s s' : σ}
    {u : PUnit}
    (h : Yields (forIn l PUnit.unit fun a _ => do f a; pure (.yield PUnit.unit)) s u s') :
    ∃ us, Along (fun a => Yields (f a)) l s us s' := by
  induction l generalizing s with
  | nil =>
      obtain ⟨-, rfl⟩ := yields_pure.1 h
      exact ⟨[], .nil s'⟩
  | cons a l ih =>
      rw [List.forIn_cons] at h
      obtain ⟨_, s₁, h₁, h₂⟩ := yields_bind.1 h
      obtain ⟨_, s₂, ha, hyield⟩ := yields_bind.1 h₁
      obtain ⟨rfl, rfl⟩ := yields_pure.1 hyield
      obtain ⟨us, hus⟩ := ih h₂
      exact ⟨() :: us, .cons ha hus⟩

/-- The walk succeeds wherever it starts. -/
def Succeeds (m : ExceptT Fault (StateM σ) α) : Prop := ∀ s, ∃ a s', Yields m s a s'

theorem Succeeds.pure (a : α) : Succeeds (Pure.pure a : ExceptT Fault (StateM σ) α) :=
  fun s => ⟨a, s, rfl⟩

theorem Succeeds.get : Succeeds (MonadState.get : ExceptT Fault (StateM σ) σ) :=
  fun s => ⟨s, s, rfl⟩

theorem Succeeds.modify (f : σ → σ) : Succeeds (modify f : ExceptT Fault (StateM σ) Unit) :=
  fun s => ⟨(), f s, rfl⟩

theorem Succeeds.bind {m : ExceptT Fault (StateM σ) α} {f : α → ExceptT Fault (StateM σ) β}
    (hm : Succeeds m) (hf : ∀ a, Succeeds (f a)) : Succeeds (m >>= f) := by
  intro s
  obtain ⟨a, s', h⟩ := hm s
  obtain ⟨b, s'', h'⟩ := hf a s'
  exact ⟨b, s'', yields_bind.2 ⟨a, s', h, h'⟩⟩

theorem Succeeds.forIn {f : α → β → ExceptT Fault (StateM σ) (ForInStep β)}
    (hf : ∀ a b, Succeeds (f a b)) :
    ∀ (l : List α) (b : β), Succeeds (ForIn.forIn l b f)
  | [], b => Succeeds.pure b
  | a :: l, b => by
      rw [List.forIn_cons]
      refine (hf a b).bind fun step => ?_
      cases step with
      | done b => exact Succeeds.pure b
      | yield b => exact Succeeds.forIn hf l b

section Keeps

variable {R : σ → σ → Prop}

/-- However the walk ends, its last state stands in the relation to its first one. -/
def Keeps (R : σ → σ → Prop) (m : ExceptT Fault (StateM σ) α) : Prop :=
  ∀ s, R s (outcome m s).2

theorem Keeps.of_yields {m : ExceptT Fault (StateM σ) α} {s s' : σ} {a : α}
    (hm : Keeps R m) (h : Yields m s a s') : R s s' := by
  have h' := hm s
  rw [show outcome m s = (.ok a, s') from h] at h'
  exact h'

theorem Keeps.modify {f : σ → σ} (h : ∀ s, R s (f s)) :
    Keeps R (modify f : ExceptT Fault (StateM σ) Unit) := h

theorem Keeps.pure [IsPreorder σ R] (a : α) :
    Keeps R (Pure.pure a : ExceptT Fault (StateM σ) α) := fun s => refl_of R s

theorem Keeps.throw [IsPreorder σ R] (e : Fault) :
    Keeps R (MonadExcept.throw e : ExceptT Fault (StateM σ) α) := fun s => refl_of R s

theorem Keeps.get [IsPreorder σ R] :
    Keeps R (MonadState.get : ExceptT Fault (StateM σ) σ) := fun s => refl_of R s

theorem Keeps.lift [IsPreorder σ R] (x : Except Fault α) :
    Keeps R (liftM x : ExceptT Fault (StateM σ) α) := fun s => refl_of R s

/-- The second part of a walk need only keep the relation for what the first part gives. -/
theorem Keeps.bind_of_yields [IsPreorder σ R] {m : ExceptT Fault (StateM σ) α}
    {f : α → ExceptT Fault (StateM σ) β} (hm : Keeps R m)
    (hf : ∀ a s s', Yields m s a s' → Keeps R (f a)) : Keeps R (m >>= f) := by
  intro s
  have h := hm s
  rw [outcome_bind]
  rcases ho : outcome m s with ⟨e | a, s'⟩ <;> rw [ho] at h
  · exact h
  · exact trans_of R h (hf a s s' ho s')

theorem Keeps.bind [IsPreorder σ R] {m : ExceptT Fault (StateM σ) α}
    {f : α → ExceptT Fault (StateM σ) β} (hm : Keeps R m) (hf : ∀ a, Keeps R (f a)) :
    Keeps R (m >>= f) :=
  hm.bind_of_yields fun a _ _ _ => hf a

theorem Keeps.rethrow {m : ExceptT Fault (StateM σ) α} {g : Fault → Fault}
    (hm : Keeps R m) : Keeps R (tryCatch m fun e => MonadExcept.throw (g e)) := by
  intro s
  have h := hm s
  rw [outcome_rethrow]
  rcases ho : outcome m s with ⟨e | a, s'⟩ <;> rw [ho] at h <;> exact h

end Keeps

/-- A property of walks that a walk has as soon as its parts have it. -/
structure Compositional (P : (α : Type) → ExceptT Fault (StateM σ) α → Prop) : Prop where
  pure {α : Type} (a : α) : P α (Pure.pure a)
  throw {α : Type} (e : Fault) : P α (MonadExcept.throw e)
  lift {α : Type} (x : Except Fault α) : P α (liftM x)
  bind {α β : Type} {m : ExceptT Fault (StateM σ) α} {f : α → ExceptT Fault (StateM σ) β}
    (hm : P α m) (hf : ∀ a, P β (f a)) : P β (m >>= f)

namespace Compositional

variable {P : (α : Type) → ExceptT Fault (StateM σ) α → Prop}

theorem map (h : Compositional P) {m : ExceptT Fault (StateM σ) α} (hm : P α m) (f : α → β) :
    P β (f <$> m) := by
  rw [map_eq_pure_bind]
  exact h.bind hm fun _ => h.pure _

theorem mapM (h : Compositional P) {f : α → ExceptT Fault (StateM σ) β} (l : List α)
    (hf : ∀ a, P β (f a)) : P (List β) (l.mapM f) := by
  induction l with
  | nil => exact h.pure []
  | cons a rest ih =>
      rw [List.mapM_cons]
      exact h.bind (hf a) fun _ => h.bind ih fun _ => h.pure _

theorem forIn (h : Compositional P) {f : α → β → ExceptT Fault (StateM σ) (ForInStep β)}
    (l : List α) (b : β) (hf : ∀ a ∈ l, ∀ b, P (ForInStep β) (f a b)) :
    P β (ForIn.forIn l b f) := by
  induction l generalizing b with
  | nil => exact h.pure b
  | cons a rest ih =>
      rw [List.forIn_cons]
      refine h.bind (hf a List.mem_cons_self b) fun step => ?_
      cases step with
      | done b => exact h.pure b
      | yield b => exact ih b fun a' ha' => hf a' (List.mem_cons_of_mem a ha')

end Compositional

theorem compositional_keeps {R : σ → σ → Prop} [IsPreorder σ R] :
    Compositional fun _ => Keeps R where
  pure := Keeps.pure
  throw := Keeps.throw
  lift := Keeps.lift
  bind := Keeps.bind

/-- A walk along a list keeps what every one of its steps keeps. -/
theorem Keeps.forIn {R : σ → σ → Prop} [IsPreorder σ R]
    {f : α → β → ExceptT Fault (StateM σ) (ForInStep β)} (l : List α) (b : β)
    (h : ∀ a ∈ l, ∀ b, Keeps R (f a b)) : Keeps R (ForIn.forIn l b f) :=
  compositional_keeps.forIn l b h

end OpenApiClient.Walk
