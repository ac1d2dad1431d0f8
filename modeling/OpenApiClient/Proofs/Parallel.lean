import OpenApiClient.Proofs.Walk

/-!
# Two walks side by side

Two walks are compared that start at related states: they *match* if both succeed, with related
results, or both fail, whatever their faults are.  They run in *parallel* if, besides, the states
at which they succeed are related again.  One rule for each way to put walks together says that
walks made alike of parallel parts are parallel.
-/

namespace OpenApiClient.Walk

variable {σ τ α β γ δ : Type}

section Lists

variable {R R' : α → β → Prop} {l : List α} {l' : List β}

/-- Lists whose members are the same under some reading. -/
theorem forall₂_of_map_eq {f : α → γ} {g : β → γ} (h : l.map f = l'.map g) :
    List.Forall₂ (fun a b => f a = g b) l l' := by
  rw [← List.forall₂_eq_eq_eq, List.forall₂_map_left_iff, List.forall₂_map_right_iff] at h
  exact h

/-- What is known of the members of two lists may be used to compare them. -/
theorem forall₂_of_mem (h : List.Forall₂ R l l')
    (hR : ∀ a ∈ l, ∀ b ∈ l', R a b → R' a b) : List.Forall₂ R' l l' := by
  induction h with
  | nil => exact .nil
  | cons hab _ ih =>
      refine .cons (hR _ List.mem_cons_self _ List.mem_cons_self hab) (ih fun a ha b hb => ?_)
      exact hR a (List.mem_cons_of_mem _ ha) b (List.mem_cons_of_mem _ hb)

theorem rel_find? {f : α → Bool} {g : β → Bool} (h : List.Forall₂ R l l')
    (hfg : ∀ a b, R a b → g b = f a) : Option.Rel R (l.find? f) (l'.find? g) := by
  induction h with
  | nil => exact .none
  | cons hab _ ih =>
      rw [List.find?_cons, List.find?_cons, hfg _ _ hab]
      split
      · exact .some hab
      · exact ih

theorem rel_getElem? (h : List.Forall₂ R l l') (n : ℕ) : Option.Rel R l[n]? l'[n]? := by
  induction h generalizing n with
  | nil => exact .none
  | cons hab _ ih =>
      cases n with
      | zero => exact .some hab
      | succ n => exact ih n

theorem rel_lookup {κ : Type} [BEq κ] {l : List (κ × α)} {l' : List (κ × β)}
    (h : List.Forall₂ (fun e e' => e'.1 = e.1 ∧ R e.2 e'.2) l l') (k : κ) :
    Option.Rel R (l.lookup k) (l'.lookup k) := by
  induction h with
  | nil => exact .none
  | cons he _ ih =>
      rw [List.lookup_cons, List.lookup_cons, he.1]
      split
      · exact .some he.2
      · exact ih

theorem any_eq_of_forall₂ {f : α → Bool} {g : β → Bool} (h : List.Forall₂ R l l')
    (hfg : ∀ a b, R a b → g b = f a) : l'.any g = l.any f := by
  induction h with
  | nil => rfl
  | cons hab _ ih => rw [List.any_cons, List.any_cons, hfg _ _ hab, ih]

theorem flatMap_eq_of_forall₂ {f : α → List γ} {g : β → List γ} (h : List.Forall₂ R l l')
    (hfg : ∀ a b, R a b → g b = f a) : l'.flatMap g = l.flatMap f := by
  induction h with
  | nil => rfl
  | cons hab _ ih => rw [List.flatMap_cons, List.flatMap_cons, hfg _ _ hab, ih]

theorem forall₂_zipIdx (h : List.Forall₂ R l l') (n : Nat) :
    List.Forall₂ (fun a b => R a.1 b.1 ∧ b.2 = a.2) (l.zipIdx n) (l'.zipIdx n) := by
  induction h generalizing n with
  | nil => exact .nil
  | cons hab _ ih => exact .cons ⟨hab, rfl⟩ (ih (n + 1))

theorem eq_none_of_rel {o : Option β} (h : Option.Rel R none o) : o = none := by
  cases h
  rfl

theorem exists_of_rel {a : α} {o : Option β} (h : Option.Rel R (some a) o) :
    ∃ b, o = some b ∧ R a b := by
  cases h with
  | some h => exact ⟨_, rfl, h⟩

/-- What is known of what two options hold may be used to compare it. -/
theorem rel_of_eq_some {o : Option α} {o' : Option β} (h : Option.Rel R o o')
    (hR : ∀ a b, o = some a → o' = some b → R a b → R' a b) : Option.Rel R' o o' := by
  cases h with
  | none => exact .none
  | some hab => exact .some (hR _ _ rfl rfl hab)

end Lists

/-- Both outcomes are successes, with related results, or both are failures. -/
inductive Matches (R : α → β → Prop) : Except Fault α → Except Fault β → Prop
  | ok {a : α} {b : β} (h : R a b) : Matches R (.ok a) (.ok b)
  | error (e e' : Fault) : Matches R (.error e) (.error e')

section Matches

variable {R : α → β → Prop} {T : γ → δ → Prop} {x : Except Fault α} {y : Except Fault β}

theorem matches_of_eq {x y : Except Fault α} (h : y = x) : Matches (fun a b => b = a) x y := by
  subst h
  cases y with
  | ok a => exact .ok rfl
  | error e => exact .error e e

theorem Matches.exists_of_ok {a : α} (h : Matches R x y) (hx : x = .ok a) :
    ∃ b, y = .ok b ∧ R a b := by
  subst hx
  cases h with
  | ok hab => exact ⟨_, rfl, hab⟩

theorem Matches.exists_of_error {e : Fault} (h : Matches R x y) (hx : x = .error e) :
    ∃ e', y = .error e' := by
  subst hx
  cases h with
  | error e e' => exact ⟨e', rfl⟩

theorem Matches.mono {R' : α → β → Prop} (h : Matches R x y) (hR : ∀ a b, R a b → R' a b) :
    Matches R' x y := by
  cases h with
  | ok hab => exact .ok (hR _ _ hab)
  | error => exact .error _ _

/-- What a success gives may be used to compare the results. -/
theorem Matches.of_ok (h : Matches R x y) {R' : α → β → Prop}
    (hR : ∀ a b, x = .ok a → y = .ok b → R a b → R' a b) : Matches R' x y := by
  cases h with
  | ok hab => exact .ok (hR _ _ rfl rfl hab)
  | error => exact .error _ _

theorem Matches.bind (h : Matches R x y) {f : α → Except Fault γ} {g : β → Except Fault δ}
    (hfg : ∀ a b, R a b → Matches T (f a) (g b)) : Matches T (x >>= f) (y >>= g) := by
  cases h with
  | ok hab => exact hfg _ _ hab
  | error => exact .error _ _

theorem Matches.map (h : Matches R x y) {f : α → γ} {g : β → δ}
    (hfg : ∀ a b, R a b → T (f a) (g b)) : Matches T (x.map f) (y.map g) := by
  cases h with
  | ok hab => exact .ok (hfg _ _ hab)
  | error => exact .error _ _

/-- Outcomes whose results are the same under some reading. -/
theorem matches_of_map_eq {ε : Type} {f : α → ε} {g : β → ε} (h : x.map f = y.map g) :
    Matches (fun a b => f a = g b) x y := by
  cases x with
  | ok a =>
      cases y with
      | ok b => exact .ok (Except.ok.inj h)
      | error => cases h
  | error e =>
      cases y with
      | ok b => cases h
      | error e' => exact .error e e'

/-- What the results are told by is the same. -/
theorem Matches.map_toOption_eq {ε : Type} (h : Matches R x y) {f : α → ε} {g : β → ε}
    (hfg : ∀ a b, R a b → g b = f a) : y.toOption.map g = x.toOption.map f := by
  cases h with
  | ok hab => exact congrArg some (hfg _ _ hab)
  | error => rfl

theorem Matches.mapM {f : α → Except Fault γ} {g : β → Except Fault δ} {l : List α} {l' : List β}
    (h : List.Forall₂ R l l') (hfg : ∀ a b, R a b → Matches T (f a) (g b)) :
    Matches (List.Forall₂ T) (l.mapM f) (l'.mapM g) := by
  induction h with
  | nil => exact .ok .nil
  | cons hab _ ih =>
      rw [List.mapM_cons, List.mapM_cons]
      exact (hfg _ _ hab).bind fun _ _ hcd => ih.bind fun _ _ hrest => .ok (.cons hcd hrest)

/-- Lists are filtered alike where the tests agree. -/
theorem Matches.filterM {f : α → Except Fault Bool} {g : β → Except Fault Bool} {l : List α}
    {l' : List β} (h : List.Forall₂ R l l')
    (hfg : ∀ a b, R a b → Matches (fun c d => d = c) (f a) (g b)) :
    Matches (List.Forall₂ R) (l.filterM f) (l'.filterM g) := by
  suffices haux : ∀ kept kept', List.Forall₂ R kept kept' →
      Matches (List.Forall₂ R) (l.filterAuxM f kept) (l'.filterAuxM g kept') by
    exact (haux [] [] .nil).bind fun _ _ hkept => .ok (List.forall₂_reverse_iff.2 hkept)
  induction h with
  | nil => exact fun _ _ hkept => .ok hkept
  | cons hab _ ih =>
      intro kept kept' hkept
      rw [List.filterAuxM, List.filterAuxM]
      refine (hfg _ _ hab).bind fun c d hcd => ih _ _ ?_
      subst hcd
      cases d with
      | true => exact .cons hab hkept
      | false => exact hkept

end Matches

/-- From related states on, the walks match, and where they succeed, they end at related states. -/
def Parallel (S : σ → τ → Prop) (R : α → β → Prop) (m : ExceptT Fault (StateM σ) α)
    (m' : ExceptT Fault (StateM τ) β) : Prop :=
  ∀ s t, S s t → Matches (fun a b => R a b ∧ S (outcome m s).2 (outcome m' t).2)
    (outcome m s).1 (outcome m' t).1

namespace Parallel

variable {S : σ → τ → Prop} {R : α → β → Prop} {T : γ → δ → Prop}

theorem pure {a : α} {b : β} (h : R a b) : Parallel S R (Pure.pure a) (Pure.pure b) :=
  fun _ _ hst => .ok ⟨h, hst⟩

theorem throw (e e' : Fault) : Parallel S R (MonadExcept.throw e) (MonadExcept.throw e') :=
  fun _ _ _ => .error e e'

theorem lift {x : Except Fault α} {y : Except Fault β} (h : Matches R x y) :
    Parallel S R (liftM x) (liftM y) :=
  fun _ _ hst => h.mono fun _ _ hab => ⟨hab, hst⟩

theorem get : Parallel S S MonadState.get MonadState.get := fun _ _ hst => .ok ⟨hst, hst⟩

theorem modify {f : σ → σ} {g : τ → τ} (h : ∀ s t, S s t → S (f s) (g t)) :
    Parallel S (fun _ _ => True) (modify f : ExceptT Fault (StateM σ) Unit)
      (modify g : ExceptT Fault (StateM τ) Unit) :=
  fun s t hst => .ok ⟨trivial, h s t hst⟩

theorem bind {m : ExceptT Fault (StateM σ) α} {m' : ExceptT Fault (StateM τ) β}
    {f : α → ExceptT Fault (StateM σ) γ} {f' : β → ExceptT Fault (StateM τ) δ}
    (hm : Parallel S R m m') (hf : ∀ a b, R a b → Parallel S T (f a) (f' b)) :
    Parallel S T (m >>= f) (m' >>= f') := by
  intro s t hst
  have h := hm s t hst
  rw [outcome_bind, outcome_bind]
  generalize outcome m s = o, outcome m' t = o' at h ⊢
  obtain ⟨x, s'⟩ := o
  obtain ⟨y, t'⟩ := o'
  cases h with
  | ok hab => exact hf _ _ hab.1 _ _ hab.2
  | error => exact .error _ _

theorem map {m : ExceptT Fault (StateM σ) α} {m' : ExceptT Fault (StateM τ) β} {f : α → γ}
    {f' : β → δ} (hm : Parallel S R m m') (hf : ∀ a b, R a b → T (f a) (f' b)) :
    Parallel S T (f <$> m) (f' <$> m') := by
  rw [map_eq_pure_bind, map_eq_pure_bind]
  exact hm.bind fun _ _ hab => pure (hf _ _ hab)

theorem rethrow {m : ExceptT Fault (StateM σ) α} {m' : ExceptT Fault (StateM τ) β}
    {g g' : Fault → Fault} (h : Parallel S R m m') :
    Parallel S R (tryCatch m fun e => MonadExcept.throw (g e))
      (tryCatch m' fun e => MonadExcept.throw (g' e)) := by
  intro s t hst
  have h := h s t hst
  rw [outcome_rethrow, outcome_rethrow]
  generalize outcome m s = o, outcome m' t = o' at h ⊢
  obtain ⟨x, s'⟩ := o
  obtain ⟨y, t'⟩ := o'
  cases h with
  | ok hab => exact .ok hab
  | error => exact .error _ _

theorem mapM {f : α → ExceptT Fault (StateM σ) γ} {f' : β → ExceptT Fault (StateM τ) δ}
    {l : List α} {l' : List β} (h : List.Forall₂ R l l')
    (hf : ∀ a b, R a b → Parallel S T (f a) (f' b)) :
    Parallel S (List.Forall₂ T) (l.mapM f) (l'.mapM f') := by
  induction h with
  | nil => exact pure .nil
  | cons hab _ ih =>
      rw [List.mapM_cons, List.mapM_cons]
      exact (hf _ _ hab).bind fun _ _ hcd => ih.bind fun _ _ hrest => pure (.cons hcd hrest)

/-- Both steps of a loop go on to the next one. -/
def GoOn (s t : ForInStep PUnit) : Prop := s = .yield ⟨⟩ ∧ t = .yield ⟨⟩

theorem forIn {f : α → PUnit → ExceptT Fault (StateM σ) (ForInStep PUnit)}
    {f' : β → PUnit → ExceptT Fault (StateM τ) (ForInStep PUnit)} {l : List α} {l' : List β}
    (h : List.Forall₂ R l l') (hf : ∀ a b, R a b → Parallel S GoOn (f a ⟨⟩) (f' b ⟨⟩)) :
    Parallel S (fun _ _ => True) (ForIn.forIn l PUnit.unit f) (ForIn.forIn l' PUnit.unit f') := by
  induction h with
  | nil => exact pure trivial
  | cons hab _ ih =>
      rw [List.forIn_cons, List.forIn_cons]
      refine (hf _ _ hab).bind ?_
      rintro _ _ ⟨rfl, rfl⟩
      exact ih

theorem forIn_same {f : α → PUnit → ExceptT Fault (StateM σ) (ForInStep PUnit)}
    {f' : α → PUnit → ExceptT Fault (StateM τ) (ForInStep PUnit)} (l : List α)
    (hf : ∀ a, Parallel S GoOn (f a ⟨⟩) (f' a ⟨⟩)) :
    Parallel S (fun _ _ => True) (ForIn.forIn l PUnit.unit f) (ForIn.forIn l PUnit.unit f') := by
  refine forIn (R := fun a b => b = a) (List.forall₂_same.2 fun _ _ => rfl) ?_
  rintro _ a rfl
  exact hf a

end Parallel

end OpenApiClient.Walk
