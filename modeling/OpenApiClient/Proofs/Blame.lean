import OpenApiClient.Fault.Message
import OpenApiClient.Proofs.Assembly
import OpenApiClient.Proofs.Enumeration
import OpenApiClient.Proofs.Raising

/-!
# The operation to blame

A failure tells the user during which operation it arose.  Operations are classified in their order,
and then worked off along the agenda, manager by manager and resource by resource; the first one
that fails ends the run, and it is the one that the failure names.  What is raised on the way is
bare, so nothing else has been named before, and what has been named once stays.

The parameters of operations are merged before there are operations, when they are read off a
document, and a failure there names the place that is read.
-/

namespace OpenApiClient

open Walk

/-- The failure names an operation, its message ends with it, and no other name takes its place. -/
structure Failure.Names (f : Failure) (cause : Cause) (label : String) : Prop where
  eq : f = ⟨cause, some label⟩
  message : f.message = cause.message ++ " (in operation " ++ label ++ ")"
  lasting (other : String) : (Fault.failed f).during other = .failed f

theorem Failure.names_iff {f : Failure} {cause : Cause} {label : String} :
    f.Names cause label ↔ f = ⟨cause, some label⟩ := by
  constructor
  · exact Names.eq
  · rintro rfl
    exact ⟨rfl, rfl, fun _ => rfl⟩

/-- A bare fault becomes a failure that names an operation exactly if it is told by its cause. -/
theorem Fault.during_eq_failed_iff {e : Fault} (h : e.IsBare) {label : String} {f : Failure} :
    e.during label = .failed f ↔ ∃ cause, e = .of cause ∧ f.Names cause label := by
  simp only [Failure.names_iff]
  constructor
  · intro heq
    cases e with
    | failed f₀ =>
        obtain ⟨cause, hcause⟩ := h.exists_eq_of
        obtain rfl := Fault.failed.inj hcause
        exact ⟨cause, rfl, (Fault.failed.inj heq).symm⟩
    | _ => cases heq
  · rintro ⟨cause, rfl, rfl⟩
    rfl

section Raises

variable {σ α β : Type}

/-- The walk is ended by a fault. -/
def Raises (m : ExceptT Fault (StateM σ) α) (s : σ) (e : Fault) : Prop :=
  (outcome m s).1 = .error e

theorem not_raises_pure {a : α} {s : σ} {e : Fault} :
    ¬ Raises (pure a : ExceptT Fault (StateM σ) α) s e := nofun

theorem raises_bind {m : ExceptT Fault (StateM σ) α} {f : α → ExceptT Fault (StateM σ) β} {s : σ}
    {e : Fault} : Raises (m >>= f) s e ↔
      Raises m s e ∨ ∃ a s', Yields m s a s' ∧ Raises (f a) s' e := by
  unfold Raises Yields
  rw [outcome_bind]
  rcases outcome m s with ⟨e' | a, s'⟩
  · simp
  · simp only [reduceCtorEq, false_or, Prod.mk.injEq, Except.ok.injEq]
    constructor
    · exact fun h => ⟨a, s', ⟨rfl, rfl⟩, h⟩
    · rintro ⟨_, _, ⟨rfl, rfl⟩, h⟩
      exact h

theorem raises_lift {x : Except Fault α} {s : σ} {e : Fault} :
    Raises (liftM x : ExceptT Fault (StateM σ) α) s e ↔ x = .error e := Iff.rfl

theorem raises_rethrow {m : ExceptT Fault (StateM σ) α} {g : Fault → Fault} {s : σ} {e : Fault} :
    Raises (tryCatch m fun e => throw (g e)) s e ↔ ∃ e₀, Raises m s e₀ ∧ g e₀ = e := by
  unfold Raises
  rw [outcome_rethrow]
  rcases outcome m s with ⟨e' | a, s'⟩ <;> simp

theorem RaisesBare.of_raises {m : ExceptT Fault (StateM σ) α} (h : RaisesBare m) {s : σ} {e : Fault}
    (he : Raises m s e) : e.IsBare := h s e he

theorem Succeeds.not_raises {m : ExceptT Fault (StateM σ) α} (h : Succeeds m) {s : σ} {e : Fault} :
    ¬ Raises m s e := by
  obtain ⟨a, s', hyields⟩ := h s
  unfold Raises
  rw [show outcome m s = (.ok a, s') from hyields]
  exact nofun

end Raises

namespace Classification

variable {doc : Document} {strict : Bool}

/-- Classifying operations is ended at the first one that cannot be placed. -/
theorem raises_addOperationsFrom {start : Nat} {operations : List Operation} {c : Classification}
    {e : Fault} : Raises (addOperationsFrom doc strict start operations) c e ↔
      ∃ before o after c' e₀, operations = before ++ o :: after ∧
        Yields (addOperationsFrom doc strict start before) c () c' ∧
        Raises (addOperation doc strict (start + before.length) o) c' e₀ ∧
        e₀.during o.label = e := by
  unfold Raises Yields
  induction operations generalizing start c with
  | nil => simp [outcome_addOperationsFrom_nil]
  | cons o operations ih =>
      rw [outcome_addOperationsFrom_cons]
      constructor
      · intro h
        rcases hout : outcome (addOperation doc strict start o) c with ⟨e₀ | u, c₁⟩
        · rw [hout] at h
          exact ⟨[], o, operations, c, e₀, rfl, rfl, congrArg Prod.fst hout, Except.error.inj h⟩
        · rw [hout] at h
          obtain ⟨before, o', after, c', e₀, rfl, hbefore, hraises, heq⟩ := ih.1 h
          refine ⟨o :: before, o', after, c', e₀, rfl, ?_, ?_, heq⟩
          · rw [outcome_addOperationsFrom_cons, hout]
            exact hbefore
          · rw [List.length_cons, Nat.add_comm before.length, ← Nat.add_assoc]
            exact hraises
      · rintro ⟨before, o', after, c', e₀, heq, hbefore, hraises, rfl⟩
        cases before with
        | nil =>
            obtain ⟨rfl, rfl⟩ := List.cons.inj heq
            obtain rfl := (Prod.mk.inj hbefore).2
            rcases hout : outcome (addOperation doc strict start o) c with ⟨e | u, c₁⟩ <;>
              rw [List.length_nil, Nat.add_zero, hout] at hraises
            · obtain rfl := Except.error.inj hraises
              rfl
            · cases hraises
        | cons o₁ before =>
            obtain ⟨rfl, rfl⟩ := List.cons.inj heq
            rw [outcome_addOperationsFrom_cons] at hbefore
            rcases hout : outcome (addOperation doc strict start o) c with ⟨e | u, c₁⟩ <;>
              rw [hout] at hbefore
            · cases hbefore
            · rw [List.length_cons, Nat.add_comm before.length, ← Nat.add_assoc] at hraises
              exact ih.2 ⟨before, o', after, c', e₀, rfl, hbefore, hraises, rfl⟩

theorem raises_addOperations {operations : List Operation} {c : Classification} {e : Fault} :
    Raises (addOperations doc strict operations) c e ↔
      ∃ before o after c' e₀, operations = before ++ o :: after ∧
        Yields (addOperations doc strict before) c () c' ∧
        Raises (addOperation doc strict before.length o) c' e₀ ∧ e₀.during o.label = e := by
  have h : Raises (addOperationsFrom doc strict 0 operations) c e ↔ _ := raises_addOperationsFrom
  simp only [Nat.zero_add] at h
  exact h

end Classification

namespace Library

section Assembling

variable {α β γ δ : Type} {x x' : Assembly} {e : Fault}

/-- The making is ended by a fault. -/
def Breaks (m : Assembling α) (x : Assembly) (e : Fault) : Prop := Raises (m.run x.1) x.2 e

/-- The making leads from one state to another, whatever it gives. -/
def Passes (m : Assembling α) (x x' : Assembly) : Prop := ∃ a, Produces m x a x'

theorem not_breaks_pure {a : α} : ¬ Breaks (pure a) x e := nofun

theorem breaks_bind {m : Assembling α} {f : α → Assembling β} : Breaks (m >>= f) x e ↔
    Breaks m x e ∨ ∃ a x', Produces m x a x' ∧ Breaks (f a) x' e := by
  unfold Breaks Produces
  rw [StateT.run_bind, raises_bind]
  refine or_congr_right ⟨?_, ?_⟩
  · rintro ⟨out, b, h, h'⟩
    exact ⟨out.1, (out.2, b), h, h'⟩
  · rintro ⟨a, x', h, h'⟩
    exact ⟨(a, x'.1), x'.2, h, h'⟩

/-- A making that ends in something plain breaks and passes as its first part does. -/
theorem breaks_bind_pure {m : Assembling α} {f : α → β} :
    Breaks (m >>= fun a => pure (f a)) x e ↔ Breaks m x e := by
  rw [breaks_bind]
  refine or_iff_left ?_
  rintro ⟨a, x', -, h⟩
  exact not_breaks_pure h

theorem passes_bind_pure {m : Assembling α} {f : α → β} :
    Passes (m >>= fun a => pure (f a)) x x' ↔ Passes m x x' := by
  constructor
  · rintro ⟨b, h⟩
    obtain ⟨a, y, h, hpure⟩ := produces_bind.1 h
    obtain ⟨-, rfl⟩ := produces_pure.1 hpure
    exact ⟨a, h⟩
  · rintro ⟨a, h⟩
    exact ⟨f a, produces_bind.2 ⟨a, x', h, produces_pure.2 ⟨rfl, rfl⟩⟩⟩

theorem breaks_building {m : Building α} :
    Breaks (liftM m : Assembling α) x e ↔ Raises m x.2 e := by
  unfold Breaks
  change Raises (m >>= fun a => pure (a, x.1)) x.2 e ↔ _
  rw [raises_bind]
  refine or_iff_left ?_
  rintro ⟨a, b, -, h⟩
  exact not_raises_pure h

theorem breaks_except {y : Except Fault α} :
    Breaks (liftM y : Assembling α) x e ↔ y = .error e := by
  change Breaks (liftM (liftM y : Building α) : Assembling α) x e ↔ _
  rw [breaks_building, raises_lift]

theorem breaks_rethrow {m : Assembling α} {g : Fault → Fault} :
    Breaks (tryCatch m fun e => throw (g e)) x e ↔ ∃ e₀, Breaks m x e₀ ∧ g e₀ = e :=
  raises_rethrow (m := m.run x.1)

section Lists

variable {f : α → Assembling β}

theorem passes_mapM_nil : Passes (([] : List α).mapM f) x x' ↔ x' = x := by
  constructor
  · rintro ⟨bs, h⟩
    exact (produces_pure.1 h).2
  · rintro rfl
    exact ⟨[], produces_pure.2 ⟨rfl, rfl⟩⟩

theorem passes_mapM_cons {a : α} {l : List α} : Passes ((a :: l).mapM f) x x' ↔
    ∃ y, Passes (f a) x y ∧ Passes (l.mapM f) y x' := by
  unfold Passes
  rw [List.mapM_cons]
  constructor
  · rintro ⟨_, h⟩
    obtain ⟨b, y, hb, h⟩ := produces_bind.1 h
    obtain ⟨bs, y', hbs, hpure⟩ := produces_bind.1 h
    obtain ⟨-, rfl⟩ := produces_pure.1 hpure
    exact ⟨y, ⟨b, hb⟩, bs, hbs⟩
  · rintro ⟨y, ⟨b, hb⟩, bs, hbs⟩
    exact ⟨b :: bs, produces_bind.2 ⟨b, y, hb, produces_bind.2 ⟨bs, x', hbs,
      produces_pure.2 ⟨rfl, rfl⟩⟩⟩⟩

theorem not_breaks_mapM_nil : ¬ Breaks (([] : List α).mapM f) x e := not_breaks_pure

theorem breaks_mapM_cons {a : α} {l : List α} : Breaks ((a :: l).mapM f) x e ↔
    Breaks (f a) x e ∨ ∃ y, Passes (f a) x y ∧ Breaks (l.mapM f) y e := by
  rw [List.mapM_cons, breaks_bind]
  simp only [breaks_bind_pure, Passes]
  refine or_congr_right ⟨?_, ?_⟩
  · rintro ⟨b, y, hb, h⟩
    exact ⟨y, ⟨b, hb⟩, h⟩
  · rintro ⟨y, ⟨b, hb⟩, h⟩
    exact ⟨b, y, hb, h⟩

theorem passes_mapM_append {l l' : List α} : Passes ((l ++ l').mapM f) x x' ↔
    ∃ y, Passes (l.mapM f) x y ∧ Passes (l'.mapM f) y x' := by
  induction l generalizing x with
  | nil => simp only [List.nil_append, passes_mapM_nil, exists_eq_left]
  | cons a l ih =>
      simp only [List.cons_append, passes_mapM_cons, ih]
      constructor
      · rintro ⟨y, ha, z, hl, hl'⟩
        exact ⟨z, ⟨y, ha, hl⟩, hl'⟩
      · rintro ⟨z, ⟨y, ha, hl⟩, hl'⟩
        exact ⟨y, ha, z, hl, hl'⟩

theorem breaks_mapM_append {l l' : List α} : Breaks ((l ++ l').mapM f) x e ↔
    Breaks (l.mapM f) x e ∨ ∃ y, Passes (l.mapM f) x y ∧ Breaks (l'.mapM f) y e := by
  induction l generalizing x with
  | nil =>
      simp only [List.nil_append, passes_mapM_nil, exists_eq_left, not_breaks_mapM_nil, false_or]
  | cons a l ih =>
      simp only [List.cons_append, breaks_mapM_cons, passes_mapM_cons, ih]
      constructor
      · rintro (ha | ⟨y, ha, hl | ⟨z, hl, hl'⟩⟩)
        · exact .inl (.inl ha)
        · exact .inl (.inr ⟨y, ha, hl⟩)
        · exact .inr ⟨z, ⟨y, ha, hl⟩, hl'⟩
      · rintro ((ha | ⟨y, ha, hl⟩) | ⟨z, ⟨y, ha, hl⟩, hl'⟩)
        · exact .inl ha
        · exact .inr ⟨y, ha, .inl hl⟩
        · exact .inr ⟨y, ha, .inr ⟨z, hl, hl'⟩⟩

/-- Steps that consist of steps pass as these do in a row. -/
theorem passes_mapM_flatMap {g : γ → List α} {step : γ → Assembling δ}
    (hpasses : ∀ c x x', Passes (step c) x x' ↔ Passes ((g c).mapM f) x x') {cs : List γ} :
    Passes (cs.mapM step) x x' ↔ Passes ((cs.flatMap g).mapM f) x x' := by
  induction cs generalizing x with
  | nil => exact passes_mapM_nil.trans passes_mapM_nil.symm
  | cons c cs ih =>
      simp only [List.flatMap_cons, passes_mapM_cons, passes_mapM_append, hpasses, ih]

theorem breaks_mapM_flatMap {g : γ → List α} {step : γ → Assembling δ}
    (hpasses : ∀ c x x', Passes (step c) x x' ↔ Passes ((g c).mapM f) x x')
    (hbreaks : ∀ c x, Breaks (step c) x e ↔ Breaks ((g c).mapM f) x e) {cs : List γ} :
    Breaks (cs.mapM step) x e ↔ Breaks ((cs.flatMap g).mapM f) x e := by
  induction cs generalizing x with
  | nil => exact iff_of_false not_breaks_mapM_nil not_breaks_mapM_nil
  | cons c cs ih =>
      simp only [List.flatMap_cons, breaks_mapM_cons, breaks_mapM_append, hpasses, hbreaks, ih]

/-- A row of steps is ended at the first one that breaks. -/
theorem breaks_mapM_iff {l : List α} : Breaks (l.mapM f) x e ↔
    ∃ done : List α, ∃ a rest y,
      l = done ++ a :: rest ∧ Passes (done.mapM f) x y ∧ Breaks (f a) y e := by
  induction l generalizing x with
  | nil => exact iff_of_false not_breaks_mapM_nil (by simp)
  | cons a l ih =>
      rw [breaks_mapM_cons]
      constructor
      · rintro (ha | ⟨y, ha, h⟩)
        · exact ⟨[], a, l, x, rfl, passes_mapM_nil.2 rfl, ha⟩
        · obtain ⟨done, a', rest, z, rfl, hdone, hbreaks⟩ := ih.1 h
          exact ⟨a :: done, a', rest, z, rfl, passes_mapM_cons.2 ⟨y, ha, hdone⟩, hbreaks⟩
      · rintro ⟨done, a', rest, z, heq, hdone, hbreaks⟩
        cases done with
        | nil =>
            obtain ⟨rfl, rfl⟩ := List.cons.inj heq
            obtain rfl := passes_mapM_nil.1 hdone
            exact .inl hbreaks
        | cons a₁ done =>
            obtain ⟨rfl, rfl⟩ := List.cons.inj heq
            obtain ⟨y, ha, hdone⟩ := passes_mapM_cons.1 hdone
            exact .inr ⟨y, ha, ih.2 ⟨done, a', rest, z, rfl, hdone, hbreaks⟩⟩

end Lists

end Assembling

/-- What is done with an entry of the agenda: its method is made, and it is looked up which entities
this builds or accepts. -/
def Entry.work (doc : Document) (e : Entry) : Assembling (Route × List String) := do
  let made ← tryCatch (route doc e.kind e.className e.placed) fun fault =>
    throw (fault.during e.placed.operation.label)
  let types ← typesOf (← Building.registry) made
  return (made, types)

section Working

variable {doc : Document} {x x' : Assembly} {fault : Fault}

theorem routes_eq (doc : Document) (b : Bucket) : routes doc b = (do
    let made ← (entriesOf b).mapM (Entry.work doc)
    return (made.map (·.1), Expression.firstMet (made.flatMap (·.2)))) := by
  unfold routes entriesOf
  rw [List.mapM_map]
  rfl

theorem breaks_routes {b : Bucket} :
    Breaks (routes doc b) x fault ↔ Breaks ((entriesOf b).mapM (Entry.work doc)) x fault := by
  rw [routes_eq]
  exact breaks_bind_pure

theorem passes_routes {b : Bucket} :
    Passes (routes doc b) x x' ↔ Passes ((entriesOf b).mapM (Entry.work doc)) x x' := by
  rw [routes_eq]
  exact passes_bind_pure

/-- The entities of a method are looked up without a failure. -/
theorem unfailing_typesOf (r : Registry) (m : Route) : Unfailing (typesOf r m) := by
  have hentity (type : Value) : Unfailing (entityOf? r type) := by
    unfold entityOf?
    split
    · exact .ok _
    · split
      · exact unfailing_refused _
      · split <;> exact .ok _
  refine (OnlyRaises.mapM fun q => ?_).bind fun _ => .ok _
  exact (hentity _).bind fun _ => (hentity _).bind fun _ => .ok _

/-- A making that is ended by bare faults only. -/
def BreaksBare {α : Type} (m : Assembling α) : Prop := ∀ memo, RaisesBare (m.run memo)

namespace BreaksBare

variable {α β : Type}

theorem pure (a : α) : BreaksBare (Pure.pure a) := fun memo => .pure (a, memo)

theorem bind {m : Assembling α} {f : α → Assembling β} (hm : BreaksBare m)
    (hf : ∀ a, BreaksBare (f a)) : BreaksBare (m >>= f) := by
  intro memo
  rw [StateT.run_bind]
  exact (hm memo).bind fun out => hf out.1 out.2

theorem building {m : Building α} (hm : RaisesBare m) : BreaksBare (liftM m : Assembling α) :=
  fun _ => hm.bind fun _ => .pure _

theorem except {y : Except Fault α} (hy : Bare y) : BreaksBare (liftM y : Assembling α) :=
  building (.lift hy)

theorem completed (p : PlacedOperation) : BreaksBare (completed p) := by
  have hget : BreaksBare (get : Assembling (List (Nat × Responses))) :=
    fun memo => .pure (memo, memo)
  refine hget.bind fun memo => ?_
  split
  · exact pure _
  · refine (building Building.raisesBare_registry).bind fun r => ?_
    exact BreaksBare.bind (fun memo => .pure _) fun _ => pure _

theorem route (doc : Document) (kind : ClassKind) (className : String) (p : PlacedOperation) :
    BreaksBare (route doc kind className p) := by
  refine (completed p).bind fun rs => (building Building.raisesBare_registry).bind fun r => ?_
  refine (except (Parameter.bare_inPath doc r kind className _)).bind fun path => ?_
  refine (except (Parameter.bare_inQuery doc r kind className _)).bind fun query => ?_
  refine (building (Parameter.raisesBare_inBody doc _)).bind fun body => ?_
  refine (building (Parameter.raisesBare_ofMethod doc kind className _)).bind fun ps => ?_
  exact (except (Parameter.bare_contentType _)).bind fun type =>
    except (Fields.unfailing_fill _ _ _).bare

end BreaksBare

/-- An entry fails exactly if its method cannot be made, and the failure names its operation. -/
theorem breaks_work_failed_iff {e : Entry} {f : Failure} :
    Breaks (e.work doc) x (.failed f) ↔ ∃ cause,
      Breaks (route doc e.kind e.className e.placed) x (.of cause) ∧
      f.Names cause e.placed.operation.label := by
  unfold Entry.work
  rw [breaks_bind, breaks_rethrow]
  constructor
  · rintro (⟨e₀, hroute, heq⟩ | ⟨made, y, -, h⟩)
    · have hbare : e₀.IsBare := BreaksBare.route doc _ _ _ _ _ _ hroute
      obtain ⟨cause, rfl, hnames⟩ := (Fault.during_eq_failed_iff hbare).1 heq
      exact ⟨cause, hroute, hnames⟩
    · rcases breaks_bind.1 h with h | ⟨r, z, -, h⟩
      · exact absurd (breaks_building.1 h)
          (Succeeds.not_raises (Succeeds.get.bind fun _ => Succeeds.pure _))
      · rcases breaks_bind.1 h with h | ⟨types, z', -, h⟩
        · exact (unfailing_typesOf r made _ (breaks_except.1 h)).elim
        · exact absurd h not_breaks_pure
  · rintro ⟨cause, hroute, hnames⟩
    exact .inl ⟨_, hroute, (Fault.during_eq_failed_iff (Fault.isBare_of cause)).2
      ⟨cause, rfl, hnames⟩⟩

/-- Two rows of classes, whatever is made of their methods, are worked off entry by entry. -/
theorem breaks_classes_iff {β γ : Type} {f : Bucket → List Route × List String → β}
    {g : Bucket → List Route × List String → γ} {bs bs' : List Bucket} :
    Breaks (do
      let made ← bs.mapM fun b => routes doc b >>= fun r => pure (f b r)
      let made' ← bs'.mapM fun b => routes doc b >>= fun r => pure (g b r)
      return (made, made')) x fault ↔
      Breaks (((bs ++ bs').flatMap entriesOf).mapM (Entry.work doc)) x fault := by
  have hpasses {γ : Type} (f : Bucket → List Route × List String → γ) (b : Bucket)
      (y y' : Assembly) : Passes (routes doc b >>= fun r => pure (f b r)) y y' ↔
        Passes ((entriesOf b).mapM (Entry.work doc)) y y' :=
    passes_bind_pure.trans passes_routes
  have hbreaks {γ : Type} (f : Bucket → List Route × List String → γ) (b : Bucket)
      (y : Assembly) : Breaks (routes doc b >>= fun r => pure (f b r)) y fault ↔
        Breaks ((entriesOf b).mapM (Entry.work doc)) y fault :=
    breaks_bind_pure.trans breaks_routes
  rw [List.flatMap_append, breaks_mapM_append, breaks_bind,
    breaks_mapM_flatMap (hpasses f) (hbreaks f)]
  simp only [breaks_bind_pure, breaks_mapM_flatMap (hpasses g) (hbreaks g),
    ← passes_mapM_flatMap (hpasses f)]
  refine or_congr_right ⟨?_, ?_⟩
  · rintro ⟨made, y, hmade, h⟩
    exact ⟨y, ⟨made, hmade⟩, h⟩
  · rintro ⟨y, ⟨made, hmade⟩, h⟩
    exact ⟨made, y, hmade, h⟩

/-- The making of a library is ended by what ends the work along its agenda. -/
theorem raises_ofClassification {d : Description} {s : Settings} {c : Classification} :
    Raises (ofClassification d s c) c.build fault ↔
      Breaks ((agenda c).mapM (Entry.work d.document)) ([], c.build) fault := by
  unfold ofClassification
  dsimp only
  rw [raises_bind, or_iff_left]
  · exact breaks_classes_iff (x := ([], c.build)) (f := fun b r => (_ : GeneratedClass))
      (g := Prod.mk)
  · rintro ⟨made, b, -, h⟩
    refine Succeeds.not_raises ?_ h
    refine (Succeeds.get.bind fun _ => Succeeds.pure _).bind fun r => ?_
    exact (Succeeds.modify _).bind fun _ => Succeeds.pure _

end Working

/-- The operation that a failure comes from: the first one that cannot be classified, or else the
first one along the agenda whose method cannot be made. -/
inductive Blames (d : Description) (s : Settings) (cause : Cause) : Operation → Prop
  | classifying {before after : List Operation} {o : Operation} {c : Classification}
      (hd : d.operations = before ++ o :: after)
      (hbefore : Yields (Classification.addOperations d.document s.strictOperationIds before) {}
        () c)
      (hfails : Raises (Classification.addOperation d.document s.strictOperationIds before.length o)
        c (.of cause)) : Blames d s cause o
  | making {done rest : List Entry} {e : Entry} {x : Assembly}
      (hclassified : Yields
        (Classification.addOperations d.document s.strictOperationIds d.operations) {} ()
        (classified d s))
      (hagenda : agenda (classified d s) = done ++ e :: rest)
      (hdone : Passes (done.mapM (Entry.work d.document)) (start d s) x)
      (hfails : Breaks (route d.document e.kind e.className e.placed) x (.of cause)) :
      Blames d s cause e.placed.operation

section Describing

variable {d : Description} {s : Settings} {fault : Fault} {f : Failure}

/-- A library is not made because its operations are not classified, or because of the work along
its agenda. -/
theorem ofDescription_eq_error_iff : (ofDescription d s).1 = .error fault ↔
    Raises (Classification.addOperations d.document s.strictOperationIds d.operations) {} fault ∨
    Yields (Classification.addOperations d.document s.strictOperationIds d.operations) {} ()
      (classified d s) ∧
    Breaks ((agenda (classified d s)).mapM (Entry.work d.document)) (start d s) fault := by
  rw [show start d s = ([], (classified d s).build) from rfl, ← raises_ofClassification (s := s)]
  unfold ofDescription
  cases hc : Classification.ofOperations d.document s.strictOperationIds d.operations with
  | mk result c =>
      have hout : outcome (Classification.addOperations d.document s.strictOperationIds
        d.operations) {} = (result, c) := hc
      have hclassified : classified d s = c := congrArg Prod.snd hc
      unfold Raises Yields
      rw [hout, hclassified]
      cases result with
      | error fault' => simp
      | ok u =>
          refine ⟨fun h => .inr ⟨rfl, h⟩, ?_⟩
          rintro (h | ⟨-, h⟩)
          · cases h
          · exact h

/-- A failure ends the making of a library exactly if there is an operation to blame, and this is
the operation that it names. -/
theorem ofDescription_eq_failed_iff : (ofDescription d s).1 = .error (.failed f) ↔
    ∃ o cause, Blames d s cause o ∧ f.Names cause o.label := by
  rw [ofDescription_eq_error_iff]
  constructor
  · rintro (hraises | ⟨hclassified, hbreaks⟩)
    · obtain ⟨before, o, after, c, e, hd, hbefore, hfails, heq⟩ :=
        Classification.raises_addOperations.1 hraises
      have hbare := (Classification.raisesBare_addOperation _ _ _ _).of_raises hfails
      obtain ⟨cause, rfl, hnames⟩ := (Fault.during_eq_failed_iff hbare).1 heq
      exact ⟨o, cause, .classifying hd hbefore hfails, hnames⟩
    · obtain ⟨done, e, rest, x, hagenda, hdone, hwork⟩ := breaks_mapM_iff.1 hbreaks
      obtain ⟨cause, hroute, hnames⟩ := breaks_work_failed_iff.1 hwork
      exact ⟨_, cause, .making hclassified hagenda hdone hroute, hnames⟩
  · rintro ⟨o, cause, hblames, hnames⟩
    cases hblames with
    | classifying hd hbefore hfails =>
        refine .inl (Classification.raises_addOperations.2 ⟨_, o, _, _, _, hd, hbefore, hfails, ?_⟩)
        exact (Fault.during_eq_failed_iff (Fault.isBare_of cause)).2 ⟨cause, rfl, hnames⟩
    | making hclassified hagenda hdone hfails =>
        refine .inr ⟨hclassified, breaks_mapM_iff.2 ⟨_, _, _, _, hagenda, hdone, ?_⟩⟩
        exact breaks_work_failed_iff.2 ⟨cause, hfails, hnames⟩

end Describing

end Library

section Reading

variable {α β γ : Type} {e : Fault}

/-- A list is not read because of its first member that cannot be read. -/
theorem mapM_eq_error_iff {f : α → Except Fault β} {l : List α} : l.mapM f = .error e ↔
    ∃ before a after, l = before ++ a :: after ∧ (∀ b ∈ before, ∃ c, f b = .ok c) ∧
      f a = .error e := by
  induction l with
  | nil => exact iff_of_false nofun (by simp)
  | cons a l ih =>
      rw [List.mapM_cons]
      cases ha : f a with
      | error e' =>
          constructor
          · rintro ⟨⟩
            exact ⟨[], a, l, rfl, List.forall_mem_nil _, ha⟩
          · rintro ⟨before, a', after, heq, hbefore, ha'⟩
            cases before with
            | nil =>
                obtain ⟨rfl, rfl⟩ := List.cons.inj heq
                obtain rfl := Except.error.inj (ha.symm.trans ha')
                rfl
            | cons b before =>
                obtain ⟨rfl, rfl⟩ := List.cons.inj heq
                obtain ⟨c, hc⟩ := hbefore a List.mem_cons_self
                cases ha.symm.trans hc
      | ok b =>
          have htail : (Except.ok b >>= fun b => l.mapM f >>= fun bs => pure (b :: bs)) =
              .error e ↔ l.mapM f = .error e := by
            cases l.mapM f <;> simp [bind, Except.bind, pure, Except.pure]
          rw [htail, ih]
          constructor
          · rintro ⟨before, a', after, rfl, hbefore, ha'⟩
            exact ⟨a :: before, a', after, rfl, List.forall_mem_cons.2 ⟨⟨b, ha⟩, hbefore⟩, ha'⟩
          · rintro ⟨before, a', after, heq, hbefore, ha'⟩
            cases before with
            | nil =>
                obtain ⟨rfl, rfl⟩ := List.cons.inj heq
                cases ha.symm.trans ha'
            | cons b' before =>
                obtain ⟨rfl, rfl⟩ := List.cons.inj heq
                exact ⟨before, a', after, rfl, (List.forall_mem_cons.1 hbefore).2, ha'⟩

theorem mapM_flatMap {f : β → Except Fault γ} {g : α → List β} (l : List α) :
    (l.flatMap g).mapM f = (l.mapM fun a => (g a).mapM f).map List.flatten := by
  induction l with
  | nil => rfl
  | cons a l ih =>
      rw [List.flatMap_cons, List.mapM_append, List.mapM_cons, ih]
      cases (g a).mapM f <;> cases (l.mapM fun a => (g a).mapM f) <;> rfl

theorem mapM_filterMap {f : β → Except Fault γ} {g : α → Option β} (l : List α) :
    (l.filterMap g).mapM f =
      (l.mapM fun a => (g a).elim (.ok none) fun b => (f b).map some).map (List.filterMap id) := by
  induction l with
  | nil => rfl
  | cons a l ih =>
      rw [List.filterMap_cons, List.mapM_cons]
      cases hg : g a with
      | none =>
          dsimp only [Option.elim_none]
          rw [ih]
          cases (l.mapM fun a => (g a).elim (.ok none) fun b => (f b).map some) <;> rfl
      | some b =>
          dsimp only [Option.elim_some]
          rw [List.mapM_cons, ih]
          cases f b <;>
            cases (l.mapM fun a => (g a).elim (.ok none) fun b => (f b).map some) <;> rfl

end Reading

namespace Operation

variable {doc : Document}

/-- The operations of a document are read from place to place. -/
theorem listOfRoot_eq (doc : Document) : listOfRoot doc =
    (doc.root.get "paths").entriesOrNone >>= fun _ =>
      (doc.declared.mapM (Declared.read doc)).map numbered := by
  have hpath (path : Scalar) (item : Value) : listOfPath doc path item =
      ((item.entries?.getD []).filterMap (Declared.ofMember? path item)).mapM
        (Declared.read doc) := by
    cases item with
    | map origin es =>
        rw [listOfPath_map, mapM_filterMap, funext (Declared.ofField?_eq doc path (.map origin es))]
        rfl
    | _ => rfl
  unfold listOfRoot Document.declared
  cases hpaths : (doc.root.get "paths").entriesOrNone with
  | error e => rfl
  | ok es =>
      rw [Value.entries?_of_entriesOrNone hpaths, mapM_flatMap]
      simp only [← hpath]
      change (es.mapM fun e => listOfPath doc e.1 e.2) >>=
        (fun read => pure (numbered read.flatten)) = _
      cases es.mapM fun e => listOfPath doc e.1 e.2 <;> rfl

theorem unfailing_identifierOf (path : Scalar) (method : Method) (node : Value) :
    Unfailing (identifierOf path method node) := by
  unfold identifierOf
  split
  · exact .ok _
  · exact .ok _
  · exact unfailing_refused _

theorem unfailing_ofParts (path : Scalar) (method : Method) (node : Value)
    (parameters : List Value) (operationId : Value) :
    Unfailing (ofParts path method node parameters operationId) :=
  (Value.unfailing_membersOrNone _).bind fun _ =>
    (Value.unfailing_entriesOrNone _).bind fun _ => Fields.unfailing_fill _ _ _

/-- A failure names the place that is read, unless its path has no text. -/
theorem blame_eq_failed_iff {path : Scalar} {method : Method} {e : Fault} {f : Failure}
    (h : e.IsBare) : blame path method e = .failed f ↔ path.hasText = true ∧
      ∃ cause, e = .of cause ∧ f.Names cause (method.name ++ " " ++ path.text) := by
  unfold blame
  split
  · split
    · next htext => rw [and_iff_right htext, Fault.during_eq_failed_iff h]
    · next htext => exact iff_of_false nofun fun hboth => htext hboth.1
  · next hno =>
      refine iff_of_false (hno f) ?_
      rintro ⟨-, cause, rfl, -⟩
      exact hno _ rfl

/-- Reading an operation fails exactly if its parameters cannot be merged. -/
theorem read_eq_failed_iff {x : Declared} {f : Failure} : x.read doc = .error (.failed f) ↔
    x.path.hasText = true ∧ ∃ cause, Parameters.merge doc (x.item.get "parameters")
        (x.node.get "parameters") = .error (.of cause) ∧
      f.Names cause (x.method.name ++ " " ++ x.path.text) := by
  have hbare := Parameters.bare_merge doc (x.item.get "parameters") (x.node.get "parameters")
  unfold Declared.read
  rw [ofNode_eq]
  cases hmerge : Parameters.merge doc (x.item.get "parameters") (x.node.get "parameters") with
  | ok parameters =>
      have hunfailing : Unfailing (identifierOf x.path x.method x.node >>=
          ofParts x.path x.method x.node parameters) :=
        (unfailing_identifierOf _ _ _).bind fun _ => unfailing_ofParts _ _ _ _ _
      exact iff_of_false (fun h => hunfailing _ h) (by simp)
  | error e =>
      dsimp only
      rw [Except.error.injEq, blame_eq_failed_iff (hbare e hmerge)]
      simp only [Except.error.injEq]

/-- Where there are no paths, no operations are declared. -/
theorem declared_of_entriesOrNone {e : Fault}
    (h : (doc.root.get "paths").entriesOrNone = .error e) : doc.declared = [] := by
  have hentries : (doc.root.get "paths").entries? = none := by
    unfold Value.entriesOrNone at h
    split at h
    · split at h
      · cases h
      · next hno =>
          cases hpaths : doc.root.get "paths" with
          | map origin es => exact absurd hpaths (hno origin es)
          | _ => rfl
    · cases h
  unfold Document.declared
  rw [hentries]
  rfl

/-- A failure ends the reading of operations exactly if the parameters of one cannot be merged: the
first one that cannot be read, and it is the one that the failure names. -/
theorem listOfRoot_eq_failed_iff {f : Failure} : listOfRoot doc = .error (.failed f) ↔
    ∃ before, ∃ x : Declared, ∃ after cause, doc.declared = before ++ x :: after ∧
      (∀ y ∈ before, ∃ o, y.read doc = .ok o) ∧
      Parameters.merge doc (x.item.get "parameters") (x.node.get "parameters") =
        .error (.of cause) ∧
      x.path.hasText = true ∧ f.Names cause (x.method.name ++ " " ++ x.path.text) := by
  have hlist : listOfRoot doc = .error (.failed f) ↔
      doc.declared.mapM (Declared.read doc) = .error (.failed f) := by
    rw [listOfRoot_eq]
    cases hpaths : (doc.root.get "paths").entriesOrNone with
    | ok es =>
        change (doc.declared.mapM (Declared.read doc)).map numbered = _ ↔ _
        cases doc.declared.mapM (Declared.read doc) <;> simp [Except.map]
    | error e =>
        rw [declared_of_entriesOrNone hpaths]
        refine iff_of_false (fun h => ?_) nofun
        obtain rfl := Except.error.inj h
        exact Value.unfailing_entriesOrNone _ _ hpaths
  rw [hlist, mapM_eq_error_iff]
  simp only [read_eq_failed_iff]
  constructor
  · rintro ⟨before, x, after, hdeclared, hbefore, htext, cause, hmerge, hnames⟩
    exact ⟨before, x, after, cause, hdeclared, hbefore, hmerge, htext, hnames⟩
  · rintro ⟨before, x, after, cause, hdeclared, hbefore, hmerge, htext, hnames⟩
    exact ⟨before, x, after, hdeclared, hbefore, htext, cause, hmerge, hnames⟩

end Operation

/-- Failures name the operation to blame: when a library is made of a description, and when the
parameters of operations are merged as they are read off a document. -/
theorem failures_name_operations (d : Description) (s : Settings) (doc : Document) (f : Failure) :
    ((Library.ofDescription d s).1 = .error (.failed f) ↔
      ∃ o cause, Library.Blames d s cause o ∧ f.Names cause o.label) ∧
    (Operation.listOfRoot doc = .error (.failed f) ↔
      ∃ before x after cause, doc.declared = before ++ x :: after ∧
        (∀ y ∈ before, ∃ o, y.read doc = .ok o) ∧
        Parameters.merge doc (x.item.get "parameters") (x.node.get "parameters") =
          .error (.of cause) ∧
        x.path.hasText = true ∧ f.Names cause (x.method.name ++ " " ++ x.path.text)) :=
  ⟨Library.ofDescription_eq_failed_iff, Operation.listOfRoot_eq_failed_iff⟩

/-- Pets are listed by one operation, and the body of the other one stands elsewhere. -/
def petUpload : Document := .ofValue <| .map 0 [
  (.str "openapi", .str "3.0.0"),
  (.str "paths", .map 1 [(.str "/pets", .map 2 [
    (.str "get", .map 3 [
      (.str "operationId", .str "listPets"), (.str "tags", .seq [.str "Manager:Pets"])]),
    (.str "post", .map 4 [
      (.str "operationId", .str "addPet"), (.str "tags", .seq [.str "Manager:Pets"]),
      (.str "requestBody", Schema.referenceTo (.str "#/components/requestBodies/Pet"))])])])]

/-- The message of the failure that ends the making of a library. -/
def Library.failureMessage? (doc : Document) : Option String :=
  match (Description.ofDocument doc "3.0.0").map fun d => (ofDescription d {}).1 with
  | .ok (.error (.failed f)) => some f.message
  | _ => none

example : Library.failureMessage? petUpload = some ((Cause.referencedBody
    "#/components/requestBodies/Pet").message ++ " (in operation POST /pets)") := by
  decide +kernel

end OpenApiClient
