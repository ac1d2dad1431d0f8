import OpenApiClient.Proofs.MirroredOperation

/-!
# Classifications of mirrored operations

Operations and their copies are placed on the same classes: the classes agree in all but the nodes
that their operations keep, and so do the warnings.
-/

namespace OpenApiClient

open Walk

variable {r : Role} {doc doc' : Document}

/-- An operation and its copy, placed with the same responses. -/
structure PlacedOperation.Mirrors (doc doc' : Document) (p p' : PlacedOperation) : Prop where
  position : p'.position = p.position
  responses : p'.responses = p.responses
  operation : p.operation.Mirrors doc doc' p'.operation

/-- A class on which operations are placed, and the class of their copies. -/
structure Bucket.Mirrors (doc doc' : Document) (b b' : Bucket) : Prop where
  kind : b'.kind = b.kind
  name : b'.name = b.name
  uses : b'.uses = b.uses
  routes : List.Forall₂ (fun q q' => q'.1 = q.1 ∧ q.2.Mirrors doc doc' q'.2) b.routes b'.routes

/-- Two classifications of the same classes. -/
structure Classification.Mirrors (doc doc' : Document) (c c' : Classification) : Prop where
  buckets : List.Forall₂ (Bucket.Mirrors doc doc') c.buckets c'.buckets
  warnings : c'.warnings = c.warnings
  build : Build.Mirrors doc doc' c.build c'.build

namespace Bucket.Mirrors

variable {b b' : Bucket}

theorem addUse (h : b.Mirrors doc doc' b') (name : String) :
    (b.addUse name).Mirrors doc doc' (b'.addUse name) := by
  unfold Bucket.addUse
  rw [h.name, h.uses]
  split
  · exact h
  · exact ⟨h.kind, rfl, rfl, h.routes⟩

theorem any_routes (h : b.Mirrors doc doc' b') (id : String) :
    b'.routes.any (·.1 == id) = b.routes.any (·.1 == id) :=
  any_eq_of_forall₂ h.routes fun _ _ hq => by rw [hq.1]

theorem route? (h : b.Mirrors doc doc' b') (id : String) :
    Option.Rel (PlacedOperation.Mirrors doc doc') (b.route? id) (b'.route? id) :=
  rel_lookup h.routes id

theorem place (h : b.Mirrors doc doc' b') {p p' : PlacedOperation} (hp : p.Mirrors doc doc' p') :
    (b.place p).Mirrors doc doc' (b'.place p') := by
  unfold Bucket.place
  dsimp only
  rw [hp.operation.operationId, h.any_routes]
  split
  · refine ⟨h.kind, h.name, h.uses, ?_⟩
    rw [List.forall₂_map_left_iff, List.forall₂_map_right_iff]
    refine h.routes.imp fun q q' hq => ?_
    obtain ⟨k, old⟩ := q
    obtain ⟨k', old'⟩ := q'
    obtain ⟨rfl, hold⟩ := hq
    dsimp only
    split
    · exact ⟨rfl, hp⟩
    · exact ⟨rfl, hold⟩
  · exact ⟨h.kind, h.name, h.uses, List.rel_append h.routes (.cons ⟨rfl, hp⟩ .nil)⟩

end Bucket.Mirrors

namespace Classification

theorem Mirrors.bucket? {c c' : Classification} (h : c.Mirrors doc doc' c') (kind : ClassKind)
    (name : String) :
    Option.Rel (Bucket.Mirrors doc doc') (c.bucket? kind name) (c'.bucket? kind name) :=
  rel_find? h.buckets fun _ _ hb => by rw [hb.kind, hb.name]

theorem Mirrors.isTaken {c c' : Classification} (h : c.Mirrors doc doc' c') (kind : ClassKind)
    (name : String) {o o' : Operation} (ho : o.Mirrors doc doc' o') :
    c'.isTaken kind name o' = c.isTaken kind name o := by
  unfold Classification.isTaken
  have hbucket := h.bucket? kind name
  generalize c.bucket? kind name = b, c'.bucket? kind name = b' at hbucket
  cases hbucket with
  | none => rfl
  | @some b b' hb =>
      have hroute := hb.route? o.operationId
      rw [Option.bind_some, Option.bind_some, ho.operationId, ho.origin]
      generalize b.route? o.operationId = q, b'.route? o.operationId = q' at hroute
      cases hroute with
      | none => rfl
      | some hq => rw [Option.any_some, Option.any_some, hq.operation.origin]

theorem parallel_building {α : Type} {R : α → α → Prop} {m m' : Building α}
    (h : Parallel (Build.Mirrors doc doc') R m m') :
    Parallel (Mirrors doc doc') R (building m) (building m') := by
  intro c c' hc
  exact (h c.build c'.build hc.build).mono fun _ _ hab => ⟨hab.1, hc.buckets, hc.warnings, hab.2⟩

theorem parallel_modifyBucket (kind : ClassKind) (name : String) {f f' : Bucket → Bucket}
    (hf : ∀ b b', b.Mirrors doc doc' b' → (f b).Mirrors doc doc' (f' b')) :
    Parallel (Mirrors doc doc') (fun _ _ => True) (modifyBucket kind name f)
      (modifyBucket kind name f') := by
  refine Parallel.modify fun c c' hc => ⟨?_, hc.warnings, hc.build⟩
  rw [List.forall₂_map_left_iff, List.forall₂_map_right_iff]
  refine hc.buckets.imp fun b b' hb => ?_
  rw [hb.kind, hb.name]
  split
  · exact hf b b' hb
  · exact hb

theorem parallel_warn (messages : List String) :
    Parallel (Mirrors doc doc') (fun _ _ => True) (warn messages) (warn messages) :=
  Parallel.modify fun _ _ hc => ⟨hc.buckets, by rw [hc.warnings], hc.build⟩

theorem parallel_addBucket (kind : ClassKind) (name : String) :
    Parallel (Mirrors doc doc') (fun _ _ => True) (addBucket kind name) (addBucket kind name) := by
  refine Parallel.get.bind fun c c' hc => ?_
  have hsome : (c'.bucket? kind name).isSome = (c.bucket? kind name).isSome := by
    have hrel := hc.bucket? kind name
    generalize c.bucket? kind name = b, c'.bucket? kind name = b' at hrel
    cases hrel <;> rfl
  rw [hsome]
  split
  · exact Parallel.pure trivial
  · refine Parallel.bind (Parallel.modify fun c c' hc => ?_) fun _ _ _ => ?_
    · exact ⟨List.rel_append hc.buckets (.cons ⟨rfl, rfl, rfl, .nil⟩ .nil), hc.warnings, hc.build⟩
    · split
      · exact parallel_building (Building.parallel_register name)
      · exact Parallel.pure trivial

variable {p p' : PlacedOperation}

theorem parallel_addRoute (strict : Bool) (kind : ClassKind) (name : String)
    (hp : p.Mirrors doc doc' p') :
    Parallel (Mirrors doc doc') (fun _ _ => True) (addRoute strict kind name p)
      (addRoute strict kind name p') := by
  have hplace : Parallel (Mirrors doc doc') (fun _ _ => True)
      (modifyBucket kind name (·.place p)) (modifyBucket kind name (·.place p')) :=
    parallel_modifyBucket kind name fun _ _ hb => hb.place hp
  refine Parallel.get.bind fun c c' hc => ?_
  have hmessage : replacement kind name p'.operation = replacement kind name p.operation := by
    unfold replacement
    rw [hp.operation.operationId, hp.operation.label]
  dsimp only
  rw [hc.isTaken kind name hp.operation, hmessage]
  split
  · split
    · exact (Parallel.throw (R := fun _ _ => False) _ _).bind fun _ _ h => h.elim
    · refine Parallel.bind (parallel_building (Building.parallel_note _ _ _ _ _ _)) fun _ _ _ => ?_
      exact (parallel_warn _).bind fun _ _ _ => hplace
  · exact hplace

theorem parallel_placeOn (strict : Bool) (hp : p.Mirrors doc doc' p')
    (target : ClassKind × String) :
    Parallel (Mirrors doc doc') (fun _ _ => True) (placeOn strict p target)
      (placeOn strict p' target) := by
  have huse (name : String) : Parallel (Mirrors doc doc') Parallel.GoOn (do
      modifyBucket target.1 target.2 (·.addUse name)
      pure (ForInStep.yield PUnit.unit)) (do
      modifyBucket target.1 target.2 (·.addUse name)
      pure (ForInStep.yield PUnit.unit)) :=
    (parallel_modifyBucket _ _ fun _ _ hb => hb.addUse name).bind fun _ _ _ =>
      Parallel.pure ⟨rfl, rfl⟩
  have htypes : Parallel (Mirrors doc doc') (fun _ _ => True) (do
      for type in p.responses.referencedTypes do
        modifyBucket target.1 target.2 (·.addUse type)) (do
      for type in p.responses.referencedTypes do
        modifyBucket target.1 target.2 (·.addUse type)) :=
    (Parallel.forIn_same _ huse).bind fun _ _ _ => Parallel.pure trivial
  have hfirst : p'.operation.firstResource? = p.operation.firstResource? := by
    unfold Operation.firstResource?
    rw [hp.operation.tags]
  unfold placeOn
  rw [hp.responses, hfirst]
  refine (parallel_addBucket _ _).bind fun _ _ _ => ?_
  refine (parallel_addRoute strict _ _ hp).bind fun _ _ _ => ?_
  dsimp only
  split
  · cases p.operation.firstResource? with
    | none => exact Parallel.bind (R := fun _ _ => True) (Parallel.pure trivial) fun _ _ _ => htypes
    | some resource =>
        refine Parallel.bind (R := fun _ _ => True) ?_ fun _ _ _ => htypes
        refine (huse resource).bind fun step step' hstep => ?_
        obtain ⟨rfl, rfl⟩ := hstep
        exact Parallel.pure trivial
  · exact htypes

theorem parallel_addOperation (h : doc.Mirrors r doc') (strict : Bool) (position : Nat)
    {o o' : Operation} (ho : o.Mirrors doc doc' o') :
    Parallel (Mirrors doc doc') (fun _ _ => True) (addOperation doc strict position o)
      (addOperation doc' strict position o') := by
  rw [addOperation_eq, addOperation_eq, ho.tags, ho.label]
  refine (parallel_building (ho.parallel_analyze h)).bind fun _ responses hresponses => ?_
  subst hresponses
  have hall : Parallel (Mirrors doc doc') (fun _ _ => True) (do
      for target in Tag.targets o.tags do
        placeOn strict ⟨position, o, responses⟩ target) (do
      for target in Tag.targets o.tags do
        placeOn strict ⟨position, o', responses⟩ target) := by
    have hp : PlacedOperation.Mirrors doc doc' ⟨position, o, responses⟩
        ⟨position, o', responses⟩ := ⟨rfl, rfl, ho⟩
    refine (Parallel.forIn_same _ fun target => ?_).bind fun _ _ _ => Parallel.pure trivial
    exact (parallel_placeOn strict hp target).bind fun _ _ _ => Parallel.pure ⟨rfl, rfl⟩
  refine (parallel_warn _).bind fun _ _ _ => ?_
  dsimp only
  split
  · exact (parallel_building (Building.parallel_note _ _ _ _ _ _)).bind fun _ _ _ => hall
  · exact hall

/-- Operations and their copies are classified alike. -/
theorem parallel_addOperations (h : doc.Mirrors r doc') (strict : Bool)
    {operations operations' : List Operation}
    (ho : List.Forall₂ (Operation.Mirrors doc doc') operations operations') :
    Parallel (Mirrors doc doc') (fun _ _ => True) (addOperations doc strict operations)
      (addOperations doc' strict operations') := by
  refine (Parallel.forIn (forall₂_zipIdx ho 0) fun a b hab => ?_).bind fun _ _ _ =>
    Parallel.pure trivial
  obtain ⟨o, position⟩ := a
  obtain ⟨o', _⟩ := b
  obtain ⟨hoo, rfl⟩ := hab
  exact (Parallel.rethrow (parallel_addOperation h strict _ hoo)).bind fun _ _ _ =>
    Parallel.pure ⟨rfl, rfl⟩

end Classification

end OpenApiClient
