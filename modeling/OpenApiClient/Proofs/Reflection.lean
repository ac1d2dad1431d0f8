import OpenApiClient.Proofs.Making
import OpenApiClient.Proofs.Placement

/-!
# What a classification holds

A classification places operations on classes, one placement after the other.  Its classes are
those of its placements, each where it is first met, and a class is what it makes of the
operations placed on it, in their order.  A warning tells of every placement that finds its
identifier taken.
-/

namespace OpenApiClient

open Walk

namespace Classification

variable {α : Type} {c c' : Classification} {kind : ClassKind} {name : String} {u : Unit}

/-- Changes of one class make one change. -/
theorem withBucket_withBucket {f g : Bucket → Bucket} (hkey : ∀ b, (f b).key = b.key) :
    (c.withBucket kind name f).withBucket kind name g =
      c.withBucket kind name fun b => g (f b) := by
  unfold withBucket
  dsimp only
  rw [List.map_map]
  congr 2
  funext b
  dsimp only [Function.comp_apply]
  split
  · next h =>
      obtain ⟨hkind, hname⟩ := Prod.mk.inj (hkey b)
      rw [if_pos (by rwa [hkind, hname])]
  · rfl

/-- A walk inside a classification changes nothing but what is built. -/
theorem yields_building_iff {m : Building α} {a : α} :
    Yields (building m) c a c' ↔
      Yields m c.build a c'.build ∧ c'.buckets = c.buckets ∧ c'.warnings = c.warnings := by
  constructor
  · intro h
    have hc' : { c with build := (outcome m c.build).2 } = c' := congrArg Prod.snd h
    exact ⟨yields_building h, hc' ▸ rfl, hc' ▸ rfl⟩
  · rintro ⟨h, hbuckets, hwarnings⟩
    have hout : outcome (building m) c =
      ((outcome m c.build).1, { c with build := (outcome m c.build).2 }) := rfl
    unfold Yields
    rw [hout, show outcome m c.build = (.ok a, c'.build) from h, ← hbuckets, ← hwarnings]

theorem yields_modifyBucket {f : Bucket → Bucket} :
    Yields (modifyBucket kind name f) c u c' ↔ c' = c.withBucket kind name f :=
  yields_modify

theorem yields_addUses {types : List String}
    (h : Yields (do for type in types do modifyBucket kind name (·.addUse type)) c u c') :
    c' = c.withBucket kind name fun b => types.foldl Bucket.addUse b := by
  obtain ⟨_, c₁, hloop, hpure⟩ := yields_bind.1 h
  obtain ⟨-, rfl⟩ := yields_pure.1 hpure
  obtain ⟨us, hsteps⟩ := along_of_yields_forIn hloop
  refine hsteps.invariant (I := fun done c' => c' = c.withBucket kind name fun b =>
    done.foldl Bucket.addUse b) ?_ fun done type c₁ u c₂ _ hI hstep => ?_
  · simp [withBucket]
  · rw [yields_modifyBucket.1 hstep, hI, withBucket_withBucket (Bucket.key_foldl_addUse done)]
    simp only [List.foldl_append, List.foldl_cons, List.foldl_nil]

/-- A class that is not there is added last, and registered if it is a resource. -/
theorem exists_of_yields_addBucket (h : Yields (addBucket kind name) c u c') :
    c'.warnings = c.warnings ∧
    c'.buckets = (if (c.bucket? kind name).isSome then c.buckets
      else c.buckets ++ [{ kind := kind, name := name }]) ∧
    c'.build.completed = c.build.completed ∧
    c'.build.registry = if kind = .resource ∧ (c.bucket? kind name).isSome = false then
      c.build.registry.register name else c.build.registry := by
  obtain ⟨_, _, hget, h₁⟩ := yields_bind.1 h
  obtain ⟨rfl, rfl⟩ := yields_get.1 hget
  split at h₁
  · next hthere =>
      obtain ⟨-, rfl⟩ := yields_pure.1 h₁
      simp [hthere]
  · next hthere =>
      obtain ⟨_, c₁, hmodify, h₂⟩ := yields_bind.1 h₁
      obtain rfl := yields_modify.1 hmodify
      rw [if_neg hthere]
      split at h₂
      · next hkind =>
          obtain ⟨hregister, hbuckets, hwarnings⟩ := yields_building_iff.1 h₂
          obtain ⟨hregistry, hcompleted⟩ := Building.yields_register hregister
          refine ⟨hwarnings, hbuckets, hcompleted, ?_⟩
          rw [if_pos ⟨hkind, by simpa using hthere⟩, hregistry]
      · next hkind =>
          obtain ⟨-, rfl⟩ := yields_pure.1 h₂
          exact ⟨rfl, rfl, rfl, (if_neg fun h => hkind h.1).symm⟩

/-- A class that is added holds nothing yet. -/
theorem isTaken_of_yields_addBucket (h : Yields (addBucket kind name) c u c')
    (t : ClassKind × String) (o : Operation) : c'.isTaken t.1 t.2 o = c.isTaken t.1 t.2 o := by
  obtain ⟨-, hbuckets, -⟩ := exists_of_yields_addBucket h
  unfold isTaken Classification.bucket?
  rw [hbuckets]
  split
  · rfl
  · rw [List.find?_append]
    cases hfind : c.buckets.find? (fun b => b.kind = t.1 && b.name = t.2) with
    | some b => rfl
    | none =>
        rw [Option.none_or, List.find?_singleton]
        split <;> rfl

/-- An operation is placed with a warning if another one has its identifier there. -/
theorem exists_of_yields_addRoute {strict : Bool} {p : PlacedOperation}
    (h : Yields (addRoute strict kind name p) c u c') :
    c'.buckets = (c.withBucket kind name (·.place p)).buckets ∧ c.build.Same c'.build ∧
    c'.warnings = c.warnings ++
      if c.isTaken kind name p.operation then [replacement kind name p.operation] else [] := by
  obtain ⟨_, _, hget, h₁⟩ := yields_bind.1 h
  obtain ⟨rfl, rfl⟩ := yields_get.1 hget
  rename Classification => c
  have hreplace {c' : Classification} {u : Unit} (h : Yields (do
      building (Building.note .warning "compiler.classifier" (replacement kind name p.operation))
      warn [replacement kind name p.operation]
      modifyBucket kind name (·.place p)) c u c') :
      c'.buckets = (c.withBucket kind name (·.place p)).buckets ∧ c.build.Same c'.build ∧
        c'.warnings = c.warnings ++ [replacement kind name p.operation] := by
    obtain ⟨_, c₁, hnote, h₁⟩ := yields_bind.1 h
    obtain ⟨hnote, hbuckets, hwarnings⟩ := yields_building_iff.1 hnote
    obtain ⟨_, c₂, hwarn, h₂⟩ := yields_bind.1 h₁
    obtain rfl := yields_modify.1 hwarn
    obtain rfl := yields_modifyBucket.1 h₂
    simp only [withBucket, hbuckets, hwarnings, true_and, and_true]
    exact Building.yields_note hnote
  change Yields (if c.isTaken kind name p.operation = true then _ else _) c u c' at h₁
  split at h₁
  · split at h₁
    · obtain ⟨_, _, hthrow, -⟩ := yields_bind.1 h₁
      exact absurd hthrow not_yields_throw
    · next htaken _ =>
        rw [if_pos htaken]
        exact hreplace h₁
  · next htaken =>
      rw [if_neg htaken]
      obtain rfl := yields_modifyBucket.1 h₁
      exact ⟨rfl, ⟨rfl, rfl⟩, by simp [withBucket]⟩

/-- Behind its methods, a class takes up what it uses of an operation. -/
theorem eq_of_yields_uses {p : PlacedOperation} {target : ClassKind × String} (h : Yields (do
      if target.1 = .manager then
        for resource in p.operation.firstResource? do
          modifyBucket target.1 target.2 (·.addUse resource)
      for type in p.responses.referencedTypes do
        modifyBucket target.1 target.2 (·.addUse type)) c u c') :
    c' = c.withBucket target.1 target.2 fun b => (p.uses target.1).foldl Bucket.addUse b := by
  unfold PlacedOperation.uses
  split at h
  · next hmanager =>
      rw [if_pos hmanager]
      obtain ⟨_, c₁, hresource, h₁⟩ := yields_bind.1 h
      rw [yields_addUses h₁]
      cases hr : p.operation.firstResource? with
      | none =>
          rw [hr] at hresource
          obtain ⟨-, rfl⟩ := yields_pure.1 hresource
          rfl
      | some resource =>
          rw [hr] at hresource
          obtain ⟨_, c₂, hstep, hpure⟩ := yields_bind.1 hresource
          obtain ⟨_, c₃, hmodify, hyield⟩ := yields_bind.1 hstep
          obtain ⟨rfl, rfl⟩ := yields_pure.1 hyield
          obtain ⟨-, rfl⟩ := yields_pure.1 hpure
          rw [yields_modifyBucket.1 hmodify]
          exact withBucket_withBucket fun b => b.key_addUse resource
  · next hresource =>
      rw [if_neg hresource]
      exact yields_addUses h

/-- Placing an operation on a class: the class is there then, has received the operation, and all
other classes are what they were. -/
theorem exists_of_yields_placeOn {strict : Bool} {p : PlacedOperation}
    {target : ClassKind × String} (h : Yields (placeOn strict p target) c u c') :
    c'.buckets = (if (c.bucket? target.1 target.2).isSome then c.buckets
      else c.buckets ++ [{ kind := target.1, name := target.2 }]).map (fun b =>
        if b.kind = target.1 && b.name = target.2 then b.receive p else b) ∧
    c'.warnings = c.warnings ++ (if c.isTaken target.1 target.2 p.operation then
      [replacement target.1 target.2 p.operation] else []) ∧
    c'.build.completed = c.build.completed ∧
    c'.build.registry = if target.1 = .resource ∧ (c.bucket? target.1 target.2).isSome = false then
      c.build.registry.register target.2 else c.build.registry := by
  obtain ⟨_, c₁, hadd, h₁⟩ := yields_bind.1 h
  obtain ⟨hwarnings₁, hbuckets₁, hcompleted₁, hregistry₁⟩ := exists_of_yields_addBucket hadd
  obtain ⟨_, c₂, hroute, h₂⟩ := yields_bind.1 h₁
  obtain ⟨hbuckets₂, ⟨hregistry₂, hcompleted₂⟩, hwarnings₂⟩ := exists_of_yields_addRoute hroute
  have huses := eq_of_yields_uses h₂
  have htaken :
      c₁.isTaken target.1 target.2 p.operation = c.isTaken target.1 target.2 p.operation :=
    isTaken_of_yields_addBucket hadd target p.operation
  refine ⟨?_, ?_, ?_, ?_⟩
  · have hboth : c'.buckets = ((c₁.withBucket target.1 target.2 (·.place p)).withBucket target.1
        target.2 fun b => (p.uses target.1).foldl Bucket.addUse b).buckets := by
      rw [huses]
      unfold withBucket
      rw [hbuckets₂]
      rfl
    rw [hboth, withBucket_withBucket fun b => b.key_place p, ← hbuckets₁]
    refine List.map_congr_left fun b _ => ?_
    split
    · next hb =>
        have hkind : b.kind = target.1 := by simpa using (Bool.and_eq_true_iff.1 hb).1
        rw [Bucket.receive, hkind]
    · rfl
  · rw [huses]
    change c₂.warnings = _
    rw [hwarnings₂, hwarnings₁, htaken]
  · rw [huses]
    exact hcompleted₂.trans hcompleted₁
  · rw [huses]
    exact hregistry₂.trans hregistry₁

/-- The operations that placements put on a class, in their order. -/
def placedOn (places : List (PlacedOperation × ClassKind × String))
    (target : ClassKind × String) : List PlacedOperation :=
  (places.filter (·.2 == target)).map (·.1)

theorem placedOn_eq_nil {places : List (PlacedOperation × ClassKind × String)}
    {target : ClassKind × String} (h : target ∉ places.map (·.2)) :
    placedOn places target = [] := by
  unfold placedOn
  rw [List.map_eq_nil_iff, List.filter_eq_nil_iff]
  intro q hq heq
  exact h (List.mem_map.2 ⟨q, hq, by simpa using heq⟩)

/-- Whether the last placement on a class that has the identifier of an operation is that of another
one. -/
def replacesIn (places : List (PlacedOperation × ClassKind × String)) (o : Operation)
    (target : ClassKind × String) : Bool :=
  (Bucket.last? (placedOn places target) o.operationId).any (·.operation.origin != o.origin)

theorem placedOn_append (places places' : List (PlacedOperation × ClassKind × String))
    (target : ClassKind × String) :
    placedOn (places ++ places') target = placedOn places target ++ placedOn places' target := by
  rw [placedOn, List.filter_append, List.map_append]
  rfl

theorem placedOn_concat (places : List (PlacedOperation × ClassKind × String))
    (p : PlacedOperation) (target t : ClassKind × String) :
    placedOn (places ++ [(p, target)]) t =
      if t = target then placedOn places t ++ [p] else placedOn places t := by
  unfold placedOn
  rw [List.filter_append, List.map_append]
  by_cases ht : t = target
  · simp [ht]
  · simp [ht, Ne.symm ht]

/-- The classes of a classification are those of some placements, each where it is first met, and
hold what is placed on them; those that are resources are registered. -/
structure Holds (c : Classification) (places : List (PlacedOperation × ClassKind × String)) :
    Prop where
  buckets : c.buckets = (places.map (·.2)).eraseDups.map fun t =>
    Bucket.ofPlaced t.1 t.2 (placedOn places t)
  registered (name : String) : (.resource, name) ∈ places.map (·.2) →
    c.build.registry.contains name = true

namespace Holds

variable {places : List (PlacedOperation × ClassKind × String)}

theorem bucket? (h : c.Holds places) (kind : ClassKind) (name : String) :
    c.bucket? kind name = if (places.map (·.2)).contains (kind, name) then
      some (Bucket.ofPlaced kind name (placedOn places (kind, name))) else none := by
  have hkey (t : ClassKind × String) :
      ((fun b : Bucket => b.kind = kind && b.name = name) ∘ fun t =>
        Bucket.ofPlaced t.1 t.2 (placedOn places t)) t = (t == (kind, name)) := by
    rw [Bool.eq_iff_iff]
    simp [Prod.ext_iff]
  unfold Classification.bucket?
  rw [h.buckets, List.find?_map, funext hkey]
  have hcontains : (places.map (·.2)).eraseDups.contains (kind, name) =
      (places.map (·.2)).contains (kind, name) := by
    rw [Bool.eq_iff_iff, List.contains_iff_mem, List.contains_iff_mem, List.mem_eraseDups]
  rw [find?_beq, hcontains]
  split <;> rfl

theorem isTaken (h : c.Holds places) (o : Operation) (target : ClassKind × String) :
    c.isTaken target.1 target.2 o = replacesIn places o target := by
  rw [Classification.isTaken, h.bucket?, replacesIn]
  split
  · rw [Option.bind_some, Bucket.route?_ofPlaced]
  · next hnone =>
      rw [placedOn_eq_nil (by simpa using hnone)]
      rfl

/-- A placement is one more. -/
theorem placeOn {strict : Bool} {p : PlacedOperation} {target : ClassKind × String}
    (h : c.Holds places) (hg : c.build.Grows c'.build)
    (hplace : Yields (Classification.placeOn strict p target) c u c') :
    c'.Holds (places ++ [(p, target)]) := by
  obtain ⟨hbuckets, -, -, hregistry⟩ := exists_of_yields_placeOn hplace
  have hsome : (c.bucket? target.1 target.2).isSome = (places.map (·.2)).contains target := by
    rw [h.bucket?]
    split
    · next hin => exact hin.symm
    · next hnew => exact (Bool.eq_false_iff.2 hnew).symm
  constructor
  · have hadded : (if (c.bucket? target.1 target.2).isSome then c.buckets
          else c.buckets ++ [{ kind := target.1, name := target.2 }]) =
        ((places ++ [(p, target)]).map (·.2)).eraseDups.map fun t =>
          Bucket.ofPlaced t.1 t.2 (placedOn places t) := by
      rw [List.map_append, List.map_singleton, eraseDups_concat, hsome, h.buckets]
      split
      · rfl
      · next hnew =>
          rw [List.map_append, List.map_singleton, placedOn_eq_nil (by simpa using hnew)]
          rfl
    rw [hbuckets, hadded, List.map_map]
    refine List.map_congr_left fun t _ => ?_
    rw [Function.comp_apply, Bucket.kind_ofPlaced, Bucket.name_ofPlaced, placedOn_concat]
    by_cases ht : t = target
    · rw [if_pos ht, if_pos (by simp [ht]), Bucket.ofPlaced_concat]
    · rw [if_neg ht, if_neg (by simpa [Prod.ext_iff] using ht)]
  · intro name hname
    rw [List.map_append, List.mem_append] at hname
    by_cases hold : (ClassKind.resource, name) ∈ places.map (·.2)
    · exact hg.registry.contains (h.registered name hold)
    · obtain rfl : (ClassKind.resource, name) = target := by
        simpa using hname.resolve_left hold
      rw [hregistry, if_pos ⟨rfl, by rw [hsome]; simpa using hold⟩, Registry.contains_register]
      simp

/-- The operation is placed on its classes one after the other, with a warning for each class on
which it takes the place of another one. -/
theorem placeOnAll {strict : Bool} {doc : Document} {p : PlacedOperation} {b b' : Build}
    (h : c.Holds places) (hp : Yields (p.operation.analyze doc) b p.responses b')
    {targets : List (ClassKind × String)} (hnodup : targets.Nodup) {us : List Unit}
    (hall : Along (fun t => Yields (Classification.placeOn strict p t)) targets c us c') :
    c'.Holds (places ++ targets.map (p, ·)) ∧ c.build.Grows c'.build ∧
    c'.warnings = c.warnings ++ (targets.filter (replacesIn places p.operation)).map
      fun t => replacement t.1 t.2 p.operation := by
  refine hall.invariant (I := fun done c' => c'.Holds (places ++ done.map (p, ·)) ∧
    c.build.Grows c'.build ∧ c'.warnings = c.warnings ++
      (done.filter (replacesIn places p.operation)).map fun t => replacement t.1 t.2 p.operation)
    ?_ fun done t c₁ u c₂ hdone hI hstep => ?_
  · exact ⟨by simpa using h, refl_of Build.Grows _, by simp⟩
  · obtain ⟨hholds, hgrows, hwarnings⟩ := hI
    have hstepGrows : c₁.build.Grows c₂.build :=
      Build.Writes.of_spans ((keeps_placeOn (R := WritesBuild) strict t hp).of_yields hstep)
    refine ⟨?_, trans_of Build.Grows hgrows hstepGrows, ?_⟩
    · rw [List.map_append, ← List.append_assoc]
      exact hholds.placeOn hstepGrows hstep
    · -- The placements of the same operation are on other classes.
      have hother : t ∉ done := by
        intro ht
        exact (List.nodup_append.1 (hnodup.sublist hdone.sublist)).2.2 t ht t (by simp) rfl
      have htaken : c₁.isTaken t.1 t.2 p.operation = replacesIn places p.operation t := by
        have hnone : placedOn (done.map (p, ·)) t = [] := placedOn_eq_nil (by simpa using hother)
        rw [hholds.isTaken, replacesIn, replacesIn, placedOn_append, hnone, List.append_nil]
      rw [(exists_of_yields_placeOn hstep).2.1, htaken, hwarnings, List.filter_append,
        List.map_append, List.append_assoc, List.filter_singleton]
      cases replacesIn places p.operation t <;> rfl

end Holds

/-- An operation is looked at, and its placements follow each other. -/
theorem exists_of_yields_addOperation {doc : Document} {strict : Bool} {position : Nat}
    {o : Operation} (h : Yields (addOperation doc strict position o) c u c') :
    ∃ rs b c₁ us, Yields (o.analyze doc) c.build rs b ∧ b.Same c₁.build ∧
      c₁.buckets = c.buckets ∧ c₁.warnings = c.warnings ++ rs.unsupported ∧
      Along (fun t => Yields (placeOn strict ⟨position, o, rs⟩ t)) (Tag.targets o.tags) c₁ us
        c' := by
  rw [addOperation_eq] at h
  obtain ⟨rs, c₁, hanalyze, h₁⟩ := yields_bind.1 h
  obtain ⟨hanalyze, hbuckets, hwarnings⟩ := yields_building_iff.1 hanalyze
  obtain ⟨_, c₂, hwarn, h₂⟩ := yields_bind.1 h₁
  obtain rfl := yields_modify.1 hwarn
  have hplaced {c₃ : Classification} (h : Yields (do
      for target in Tag.targets o.tags do
        placeOn strict ⟨position, o, rs⟩ target) c₃ u c') :
      ∃ us, Along (fun t => Yields (placeOn strict ⟨position, o, rs⟩ t)) (Tag.targets o.tags)
        c₃ us c' := by
    obtain ⟨_, c₄, hloop, hpure⟩ := yields_bind.1 h
    obtain ⟨-, rfl⟩ := yields_pure.1 hpure
    exact along_of_yields_forIn hloop
  split at h₂
  · obtain ⟨_, c₃, hnote, h₃⟩ := yields_bind.1 h₂
    obtain ⟨hnote, hbuckets₃, hwarnings₃⟩ := yields_building_iff.1 hnote
    obtain ⟨us, hus⟩ := hplaced h₃
    refine ⟨rs, c₁.build, c₃, us, hanalyze, Building.yields_note hnote, ?_, ?_, hus⟩
    · rw [hbuckets₃, hbuckets]
    · rw [hwarnings₃, hwarnings]
  · obtain ⟨us, hus⟩ := hplaced h₂
    refine ⟨rs, c₁.build, { c₁ with warnings := c₁.warnings ++ rs.unsupported }, us, hanalyze,
      ⟨rfl, rfl⟩, hbuckets, ?_, hus⟩
    rw [hwarnings]

/-- The placements of operations: each operation on each of its classes. -/
def placesOf (ps : List PlacedOperation) : List (PlacedOperation × ClassKind × String) :=
  ps.flatMap fun p => (Tag.targets p.operation.tags).map (p, ·)

theorem placesOf_concat (ps : List PlacedOperation) (p : PlacedOperation) :
    placesOf (ps ++ [p]) = placesOf ps ++ (Tag.targets p.operation.tags).map (p, ·) := by
  simp [placesOf]

/-- An operation is placed once on each of its classes. -/
theorem placedOn_placesOf (ps : List PlacedOperation) (target : ClassKind × String) :
    placedOn (placesOf ps) target = ps.filter (·.operation.isOn target.1 target.2) := by
  induction ps using List.reverseRecOn with
  | nil => rfl
  | append_singleton ps p ih =>
      have hone : placedOn ((Tag.targets p.operation.tags).map (p, ·)) target =
          if p.operation.isOn target.1 target.2 then [p] else [] := by
        have hfilter : ((fun q : PlacedOperation × ClassKind × String => q.2 == target) ∘
            fun t => (p, t)) = (· == target) := rfl
        have hon : target ∈ Tag.targets p.operation.tags ↔
            p.operation.isOn target.1 target.2 = true := Operation.mem_targets_iff
        rw [placedOn, List.filter_map, hfilter, List.filter_beq, (Tag.nodup_targets _).count]
        simp only [hon]
        split <;> rfl
      rw [placesOf_concat, placedOn_append, hone, ih, List.filter_append, List.filter_singleton]
      cases p.operation.isOn target.1 target.2 <;> rfl

/-- Whether the last of some operations that a class has under the identifier of an operation is
another one. -/
def replaces (earlier : List Operation) (o : Operation) (target : ClassKind × String) : Bool :=
  ((earlier.filter (·.isOn target.1 target.2)).reverse.find? (·.operationId == o.operationId)).any
    (·.origin != o.origin)

/-- The warnings for the classes on which an operation takes the place of an earlier one. -/
def replacements (earlier : List Operation) (o : Operation) : List String :=
  ((Tag.targets o.tags).filter (replaces earlier o)).map fun t => replacement t.1 t.2 o

theorem replacesIn_placesOf (ps : List PlacedOperation) (o : Operation)
    (target : ClassKind × String) :
    replacesIn (placesOf ps) o target = replaces (ps.map (·.operation)) o target := by
  rw [replacesIn, placedOn_placesOf, replaces, List.filter_map, ← List.map_reverse,
    List.find?_map, Option.any_map]
  rfl

/-- A classification reflects operations, each with its position and its responses: it holds their
placements, it has looked at each of them on the way, and it warns of schemas without classes and
of operations that take the place of earlier ones. -/
structure Reflects (doc : Document) (operations : List Operation) (c : Classification)
    (ps : List PlacedOperation) : Prop where
  holds : c.Holds (placesOf ps)
  analyzed : ∀ p ∈ ps, ∃ b b', Yields (p.operation.analyze doc) b p.responses b' ∧
    b'.Grows c.build
  warnings : c.warnings = ps.flatMap fun p =>
    p.responses.unsupported ++ replacements (operations.take p.position) p.operation

theorem Reflects.addOperation {doc : Document} {strict : Bool} {operations : List Operation}
    {ps : List PlacedOperation} {o : Operation} {position : Nat}
    (h : c.Reflects doc operations ps)
    (hearlier : ps.map (·.operation) = operations.take position)
    (hadd : Yields (Classification.addOperation doc strict position o) c u c') :
    ∃ rs, c'.Reflects doc operations (ps ++ [⟨position, o, rs⟩]) := by
  obtain ⟨rs, b, c₁, us, hanalyze, hsame, hbuckets, hwarnings, hplaces⟩ :=
    exists_of_yields_addOperation hadd
  have hgrows : b.Grows c₁.build := hsame.grows
  have hgrows₁ : c.build.Grows c₁.build :=
    trans_of Build.Grows ((o.keeps_analyze doc).of_yields hanalyze) hgrows
  have hholds : c₁.Holds (placesOf ps) :=
    ⟨hbuckets ▸ h.holds.buckets, fun name hname =>
      hgrows₁.registry.contains (h.holds.registered name hname)⟩
  obtain ⟨hholds', hgrows₂, hwarnings'⟩ := hholds.placeOnAll (p := ⟨position, o, rs⟩) hanalyze
    (Tag.nodup_targets o.tags) hplaces
  refine ⟨rs, ?_, fun p hp => ?_, ?_⟩
  · rw [placesOf_concat]
    exact hholds'
  · rcases List.mem_append.1 hp with hp | hp
    · obtain ⟨b₁, b₂, hp, hg⟩ := h.analyzed p hp
      exact ⟨b₁, b₂, hp, trans_of Build.Grows hg (trans_of Build.Grows hgrows₁ hgrows₂)⟩
    · obtain rfl := List.mem_singleton.1 hp
      exact ⟨c.build, b, hanalyze, trans_of Build.Grows hgrows hgrows₂⟩
  · have htaken : replacesIn (placesOf ps) o = replaces (operations.take position) o := by
      funext t
      rw [replacesIn_placesOf, hearlier]
    rw [hwarnings', hwarnings, h.warnings, List.flatMap_append, List.append_assoc, htaken]
    simp [replacements]

theorem exists_reflects {doc : Document} {strict : Bool} {operations : List Operation}
    (h : Yields (addOperations doc strict operations) {} u c) :
    ∃ ps, c.Reflects doc operations ps ∧
      ps.map (fun p => (p.operation, p.position)) = operations.zipIdx := by
  obtain ⟨_, c₁, hloop, hpure⟩ := yields_bind.1 h
  obtain ⟨-, rfl⟩ := yields_pure.1 hpure
  obtain ⟨us, hsteps⟩ := along_of_yields_forIn hloop
  refine hsteps.invariant (I := fun done c => ∃ ps, c.Reflects doc operations ps ∧
    ps.map (fun p => (p.operation, p.position)) = done) ?_
      fun done entry c u c' hdone hI hstep => ?_
  · exact ⟨[], ⟨⟨rfl, fun _ h => nomatch h⟩, (fun _ h => nomatch h), rfl⟩, rfl⟩
  · obtain ⟨ps, hreflects, rfl⟩ := hI
    obtain ⟨o, position⟩ := entry
    have hearlier : ps.map (·.operation) = operations.take position := by
      have hposition : operations.zipIdx[ps.length]? = some (o, position) := by
        obtain ⟨rest, hrest⟩ := hdone
        simp [← hrest]
      have hlength : position = ps.length := by
        rw [List.getElem?_zipIdx, Option.map_eq_some_iff] at hposition
        obtain ⟨_, -, heq⟩ := hposition
        simpa using (Prod.mk.inj heq).2.symm
      have htake := List.prefix_iff_eq_take.1 ((List.prefix_append _ _).trans hdone)
      have hfst := congrArg (List.map Prod.fst) htake
      rwa [List.map_take, List.zipIdx_map_fst, List.map_map, List.length_map, ← hlength] at hfst
    obtain ⟨rs, h⟩ := hreflects.addOperation hearlier (yields_rethrow.1 hstep)
    exact ⟨_, h, by simp⟩

theorem mem_placesOf {ps : List PlacedOperation} {kind : ClassKind} {name : String} :
    (kind, name) ∈ (placesOf ps).map (·.2) ↔ ∃ p ∈ ps, p.operation.isOn kind name = true := by
  simp [placesOf, Operation.mem_targets_iff]

namespace Reflects

variable {doc : Document} {operations : List Operation} {ps : List PlacedOperation}

/-- The classes of a kind are made of what is placed on them. -/
theorem mem_ofKind_iff (h : c.Reflects doc operations ps) {b : Bucket} :
    b ∈ c.ofKind kind ↔ ∃ name, (∃ p ∈ ps, p.operation.isOn kind name = true) ∧
      b = Bucket.ofPlaced kind name (ps.filter (·.operation.isOn kind name)) := by
  rw [ofKind, h.holds.buckets, List.mem_filter, List.mem_map]
  constructor
  · rintro ⟨⟨t, ht, rfl⟩, hb⟩
    obtain rfl : t.1 = kind := by simpa using hb
    exact ⟨t.2, mem_placesOf.1 (List.mem_eraseDups.1 ht), by rw [placedOn_placesOf]⟩
  · rintro ⟨name, hplaced, rfl⟩
    have hmem := List.mem_eraseDups.2 (mem_placesOf.2 hplaced)
    exact ⟨⟨(kind, name), hmem, by rw [placedOn_placesOf]⟩, by simp⟩

theorem nodup_names (h : c.Reflects doc operations ps) (kind : ClassKind) :
    ((c.ofKind kind).map (·.name)).Nodup := by
  have hkeys : (c.buckets.map Bucket.key).Nodup := by
    rw [h.holds.buckets, List.map_map]
    have hid : Bucket.key ∘ (fun t : ClassKind × String =>
        Bucket.ofPlaced t.1 t.2 (placedOn (placesOf ps) t)) = id :=
      funext fun t => Bucket.key_ofPlaced t.1 t.2 _
    rw [hid, List.map_id]
    exact nodup_eraseDups _
  have hkind : ((c.ofKind kind).map (·.name)).map (kind, ·) = (c.ofKind kind).map Bucket.key := by
    rw [List.map_map]
    refine List.map_congr_left fun b hb => ?_
    rw [← show b.kind = kind by simpa using (List.mem_filter.1 hb).2]
    rfl
  refine List.Nodup.of_map (kind, ·) ?_
  rw [hkind]
  exact hkeys.sublist (List.filter_sublist.map _)

end Reflects

end Classification

end OpenApiClient
