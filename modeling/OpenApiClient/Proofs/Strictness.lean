import OpenApiClient.Proofs.Reflection

/-!
# Strict and lenient classification

A strict classification refuses what a lenient one warns of: an operation whose identifier
another one has taken on one of its classes.  Up to the first operation of that kind the two go
through the same states, and if there is none, they end alike, whether they succeed or fail:
`strict_and_lenient`.

The two are compared one placement at a time.  Placing an operation on a class leaves it open
whether its identifier is taken on another one, so the class that a strict classification stumbles
over is known before the operation is placed on the first of its classes.
-/

namespace OpenApiClient

open Walk

namespace Walk

variable {σ α β : Type}

/-- A loop makes its first step and goes on from there, unless the step fails. -/
theorem outcome_for_cons (f : α → ExceptT Fault (StateM σ) Unit) (a : α) (l : List α) (s : σ) :
    outcome (do for a in a :: l do f a) s = match outcome (f a) s with
      | (.ok _, s') => outcome (do for a in l do f a) s'
      | (.error e, s') => (.error e, s') := by
  simp only [List.forIn_cons, bind_assoc, pure_bind]
  rw [outcome_bind]
  rcases outcome (f a) s with ⟨_ | _, s'⟩ <;> rfl

end Walk

namespace Classification

variable {α : Type} {c c' c'' : Classification} {kind : ClassKind} {name : String}
  {doc : Document} {o : Operation} {position : Nat} {p : PlacedOperation}
  {t : ClassKind × String}

section Warnings

/-- A warning that an operation takes the place of an earlier one. -/
def IsReplacement (message : String) : Prop := ∃ kind name o, message = replacement kind name o

/-- From one state to another it has been warned that an operation takes the place of an earlier
one. -/
def Replaces (c c' : Classification) : Prop :=
  ∃ messages, c'.warnings = c.warnings ++ messages ∧ ∃ message ∈ messages, IsReplacement message

/-- From one state to another nothing of that kind has been warned of. -/
def Quiet (c c' : Classification) : Prop :=
  ∃ messages, c'.warnings = c.warnings ++ messages ∧ ∀ message ∈ messages, ¬ IsReplacement message

/-- Warnings are only added. -/
def Warns (c c' : Classification) : Prop := c.warnings <+: c'.warnings

instance : IsPreorder Classification Quiet where
  refl c := ⟨[], (List.append_nil _).symm, nofun⟩
  trans c c' c'' := by
    rintro ⟨messages, hmessages, hnone⟩ ⟨messages', hmessages', hnone'⟩
    refine ⟨messages ++ messages', by rw [hmessages', hmessages, List.append_assoc], ?_⟩
    intro message hmessage
    exact (List.mem_append.1 hmessage).elim (hnone message) (hnone' message)

instance : Spans Warns where
  refl c := List.prefix_refl _
  trans _ _ _ := List.IsPrefix.trans
  of_write h := by
    cases h with
    | warn messages => exact List.prefix_append _ _
    | build | addBucket | place | addUse => exact List.prefix_refl _

theorem Quiet.of_warnings_eq (h : c'.warnings = c.warnings) : c.Quiet c' :=
  ⟨[], by rw [h, List.append_nil], nofun⟩

theorem Quiet.not_replaces (h : c.Quiet c') : ¬ c.Replaces c' := by
  obtain ⟨messages, hmessages, hnone⟩ := h
  rintro ⟨messages', hmessages', message, hmessage, hreplacement⟩
  have hsame : messages' = messages := List.append_cancel_left (hmessages'.symm.trans hmessages)
  exact hnone message (hsame ▸ hmessage) hreplacement

theorem Replaces.trans_warns (h : c.Replaces c') (h' : c'.Warns c'') : c.Replaces c'' := by
  obtain ⟨messages, hmessages, message, hmessage, hreplacement⟩ := h
  obtain ⟨rest, hrest⟩ := h'
  refine ⟨messages ++ rest, ?_, message, List.mem_append_left _ hmessage, hreplacement⟩
  rw [← hrest, hmessages, List.append_assoc]

theorem Warns.trans_replaces (h : c.Warns c') (h' : c'.Replaces c'') : c.Replaces c'' := by
  obtain ⟨messages, hmessages⟩ := h
  obtain ⟨rest, hrest, message, hmessage, hreplacement⟩ := h'
  refine ⟨messages ++ rest, ?_, message, List.mem_append_right _ hmessage, hreplacement⟩
  rw [hrest, ← hmessages, List.append_assoc]

theorem Quiet.warns (h : c.Quiet c') : c.Warns c' := by
  obtain ⟨messages, hmessages, -⟩ := h
  exact ⟨messages, hmessages.symm⟩

theorem isPrefix_append {cs : List Char} {s : String} (h : cs <+: s.toList) (s' : String) :
    cs <+: (s ++ s').toList := by
  rw [String.toList_append]
  exact h.trans (List.prefix_append _ _)

/-- A report begins with the name of a method, and no method begins with a small letter. -/
theorem not_isReplacement_inlineReport (o : Operation) (status : String) (mediaType : Scalar) :
    ¬ IsReplacement (Response.inlineReport o.label status mediaType) := by
  rintro ⟨kind, name, o', h⟩
  have hreport : o.method.name.toList <+:
      (Response.inlineReport o.label status mediaType).toList := by
    unfold Response.inlineReport Operation.label
    iterate 7 refine isPrefix_append ?_ _
    exact List.prefix_refl _
  have hreplacement : "operationId '".toList <+: (replacement kind name o').toList := by
    unfold replacement
    iterate 8 refine isPrefix_append ?_ _
    exact List.prefix_refl _
  rw [h] at hreport
  have hapart : ¬ o.method.name.toList <+: "operationId '".toList ∧
      ¬ "operationId '".toList <+: o.method.name.toList := by
    cases o.method <;> decide
  rcases List.prefix_or_prefix_of_prefix hreport hreplacement with hprefix | hprefix
  · exact hapart.1 hprefix
  · exact hapart.2 hprefix

end Warnings

section Placing

/-- What a strict classification says to an operation whose identifier is taken. -/
def refusal (id : String) (t : ClassKind × String) : Fault := .of (.duplicateOperation id t.2)

/-- Places an operation on classes one after the other. -/
def placeOnEach (strict : Bool) (p : PlacedOperation) (targets : List (ClassKind × String)) :
    Classifying Unit := do
  for t in targets do placeOn strict p t

/-- Looks at an operation before it is placed. -/
def look (doc : Document) (o : Operation) : Classifying Responses := do
  let responses ← building (o.analyze doc)
  warn responses.unsupported
  if (Tag.targets o.tags).isEmpty then
    building (Building.note .debug "compiler.classifier"
      (o.label ++ " has no Manager/Resource tag; not generated"))
  return responses

theorem addOperation_eq_look (doc : Document) (strict : Bool) (position : Nat) (o : Operation) :
    addOperation doc strict position o = (do
      let responses ← look doc o
      placeOnEach strict ⟨position, o, responses⟩ (Tag.targets o.tags)) := by
  rw [addOperation_eq]
  unfold look placeOnEach
  simp only [bind_assoc]
  refine bind_congr fun responses => bind_congr fun _ => ?_
  split <;> simp only [bind_assoc, pure_bind]

theorem succeeds_building {m : Building α} (hm : Succeeds m) : Succeeds (building m) := by
  intro c
  obtain ⟨a, b, h⟩ := hm c.build
  exact ⟨a, { c with build := b }, yields_building_iff.2 ⟨h, rfl, rfl⟩⟩

theorem succeeds_addBucket (kind : ClassKind) (name : String) :
    Succeeds (addBucket kind name) := by
  refine Succeeds.get.bind fun c => ?_
  split
  · exact Succeeds.pure _
  · refine (Succeeds.modify _).bind fun _ => ?_
    split
    · exact succeeds_building (Building.succeeds_register name)
    · exact Succeeds.pure _

/-- A lenient placement never fails. -/
theorem succeeds_addRoute (kind : ClassKind) (name : String) (p : PlacedOperation) :
    Succeeds (addRoute false kind name p) := by
  refine Succeeds.get.bind fun c => ?_
  dsimp only
  split
  · refine (succeeds_building (Succeeds.modify _)).bind fun _ => ?_
    exact (Succeeds.modify _).bind fun _ => Succeeds.modify _
  · exact Succeeds.modify _

theorem succeeds_addUse {l : List String} (t : ClassKind × String) :
    Succeeds (do for type in l do modifyBucket t.1 t.2 (·.addUse type)) :=
  (Succeeds.forIn (fun _ _ => (Succeeds.modify _).bind fun _ => Succeeds.pure _) _ _).bind
    fun _ => Succeeds.pure _

theorem succeeds_placeOn (p : PlacedOperation) (t : ClassKind × String) :
    Succeeds (placeOn false p t) := by
  refine (succeeds_addBucket _ _).bind fun _ => (succeeds_addRoute _ _ _).bind fun _ => ?_
  dsimp only
  split
  · refine Succeeds.bind ?_ fun _ => succeeds_addUse t
    cases p.operation.firstResource? with
    | none => exact Succeeds.pure _
    | some resource =>
        refine Succeeds.bind ((Succeeds.modify _).bind fun _ => Succeeds.pure _) fun step => ?_
        cases step <;> exact Succeeds.pure _
  · exact succeeds_addUse t

theorem outcome_addRoute_of_free (strict : Bool) (h : c.isTaken kind name p.operation = false) :
    outcome (addRoute strict kind name p) c = (.ok (), c.withBucket kind name (·.place p)) := by
  unfold addRoute
  rw [outcome_bind]
  change outcome (if c.isTaken kind name p.operation = true then _ else _) c = _
  rw [if_neg (by simp [h])]
  rfl

theorem outcome_addRoute_of_taken (h : c.isTaken kind name p.operation = true) :
    outcome (addRoute true kind name p) c = (.error (refusal p.id (kind, name)), c) := by
  unfold addRoute
  rw [outcome_bind]
  change outcome (if c.isTaken kind name p.operation = true then _ else _) c = _
  rw [if_pos h]
  rfl

/-- Where the identifier is free, strict and lenient placements are the same. -/
theorem outcome_placeOn_of_free (h : c.isTaken t.1 t.2 p.operation = false) :
    outcome (placeOn true p t) c = outcome (placeOn false p t) c := by
  obtain ⟨u, c₁, hadd⟩ := succeeds_addBucket t.1 t.2 c
  have hfree := (isTaken_of_yields_addBucket hadd t p.operation).trans h
  unfold placeOn
  rw [outcome_bind, outcome_bind, show outcome (addBucket t.1 t.2) c = (.ok u, c₁) from hadd]
  dsimp only
  rw [outcome_bind, outcome_bind, outcome_addRoute_of_free true hfree,
    outcome_addRoute_of_free false hfree]

/-- Where the identifier is taken, a strict placement is refused. -/
theorem outcome_placeOn_of_taken (h : c.isTaken t.1 t.2 p.operation = true) :
    (outcome (placeOn true p t) c).1 = .error (refusal p.id t) := by
  obtain ⟨u, c₁, hadd⟩ := succeeds_addBucket t.1 t.2 c
  have htaken := (isTaken_of_yields_addBucket hadd t p.operation).trans h
  unfold placeOn
  rw [outcome_bind, show outcome (addBucket t.1 t.2) c = (.ok u, c₁) from hadd]
  dsimp only
  rw [outcome_bind, outcome_addRoute_of_taken htaken]

/-- Placing an operation on a class leaves it open what the other classes hold. -/
theorem isTaken_of_yields_placeOn {strict : Bool} {u : Unit}
    (h : Yields (placeOn strict p t) c u c') {t' : ClassKind × String} (hne : t' ≠ t)
    (o : Operation) : c'.isTaken t'.1 t'.2 o = c.isTaken t'.1 t'.2 o := by
  have hapart (b : Bucket) (hb : b.kind = t'.1 && b.name = t'.2) :
      ¬ (b.kind = t.1 && b.name = t.2) = true := by
    simp only [Bool.and_eq_true, decide_eq_true_eq] at hb ⊢
    exact fun ht => hne (Prod.ext (hb.1.symm.trans ht.1) (hb.2.symm.trans ht.2))
  have hkey (b : Bucket) : ((fun b : Bucket => b.kind = t'.1 && b.name = t'.2) ∘ fun b =>
      if b.kind = t.1 && b.name = t.2 then b.receive p else b) b =
        (b.kind = t'.1 && b.name = t'.2) := by
    obtain ⟨hkind, hname⟩ := Prod.mk.inj (b.key_receive p)
    rw [Function.comp_apply]
    split
    · rw [hkind, hname]
    · rfl
  obtain ⟨hbuckets, -⟩ := exists_of_yields_placeOn h
  unfold isTaken Classification.bucket?
  have hnew : (if (c.bucket? t.1 t.2).isSome then c.buckets
      else c.buckets ++ [{ kind := t.1, name := t.2 }]).find?
        (fun b => b.kind = t'.1 && b.name = t'.2) =
      c.buckets.find? fun b => b.kind = t'.1 && b.name = t'.2 := by
    split
    · rfl
    · rw [List.find?_append, List.find?_singleton, if_neg, Option.or_none]
      exact fun hb => hapart _ hb (by simp)
  rw [hbuckets, List.find?_map, funext hkey, hnew]
  cases hfind : c.buckets.find? (fun b => b.kind = t'.1 && b.name = t'.2) with
  | none => rfl
  | some b =>
      have hb := List.find?_some (p := fun b : Bucket => b.kind = t'.1 && b.name = t'.2) hfind
      rw [Option.map_some, if_neg (hapart b hb)]

/-- Where the identifier is free on all classes, strict and lenient placements are the same, and no
warning is added. -/
theorem outcome_placeOnEach_of_free {targets : List (ClassKind × String)}
    (hnodup : targets.Nodup) (h : ∀ t ∈ targets, c.isTaken t.1 t.2 p.operation = false) :
    outcome (placeOnEach true p targets) c = outcome (placeOnEach false p targets) c ∧
      (outcome (placeOnEach false p targets) c).2.warnings = c.warnings := by
  induction targets generalizing c with
  | nil => exact ⟨rfl, rfl⟩
  | cons t rest ih =>
      obtain ⟨hnew, hrest⟩ := List.nodup_cons.1 hnodup
      have hfree := h t List.mem_cons_self
      obtain ⟨u, c₁, hplace⟩ := succeeds_placeOn p t c
      have hplace' : outcome (placeOn false p t) c = (.ok u, c₁) := hplace
      have hkept : ∀ t' ∈ rest, c₁.isTaken t'.1 t'.2 p.operation = false := by
        intro t' ht'
        rw [isTaken_of_yields_placeOn hplace fun heq => hnew (heq ▸ ht')]
        exact h t' (List.mem_cons_of_mem t ht')
      have hwarnings : c₁.warnings = c.warnings := by
        rw [(exists_of_yields_placeOn hplace).2.1, if_neg (by simp [hfree]), List.append_nil]
      obtain ⟨hsame, hquiet⟩ := ih hrest hkept
      unfold placeOnEach at hsame hquiet ⊢
      rw [outcome_for_cons, outcome_for_cons, outcome_placeOn_of_free hfree, hplace']
      exact ⟨hsame, hquiet.trans hwarnings⟩

theorem succeeds_placeOnEach (p : PlacedOperation) (targets : List (ClassKind × String)) :
    Succeeds (placeOnEach false p targets) :=
  (Succeeds.forIn (fun t _ => (succeeds_placeOn p t).bind fun _ => Succeeds.pure _) _ _).bind
    fun _ => Succeeds.pure _

theorem warns_of_yields_placeOnEach {strict : Bool} {targets : List (ClassKind × String)} {u : Unit}
    (h : Yields (placeOnEach strict p targets) c u c') : c.Warns c' := by
  obtain ⟨_, c₁, hloop, hpure⟩ := yields_bind.1 h
  obtain ⟨-, rfl⟩ := yields_pure.1 hpure
  obtain ⟨us, hsteps⟩ := along_of_yields_forIn hloop
  refine hsteps.invariant (I := fun _ c' => c.Warns c') (List.prefix_refl _) ?_
  intro _ t c₁ u c₂ _ hI hstep
  exact hI.trans ⟨_, (exists_of_yields_placeOn hstep).2.1.symm⟩

/-- Where the identifier is taken on some class, a strict placement is refused on the first of
them, and a lenient one succeeds with a warning. -/
theorem outcome_placeOnEach_of_taken {free rest : List (ClassKind × String)}
    (hnodup : (free ++ t :: rest).Nodup)
    (hfree : ∀ t' ∈ free, c.isTaken t'.1 t'.2 p.operation = false)
    (htaken : c.isTaken t.1 t.2 p.operation = true) :
    (outcome (placeOnEach true p (free ++ t :: rest)) c).1 = .error (refusal p.id t) ∧
      ∃ u c', Yields (placeOnEach false p (free ++ t :: rest)) c u c' ∧ c.Replaces c' := by
  unfold placeOnEach Yields
  induction free generalizing c with
  | nil =>
      rw [List.nil_append]
      obtain ⟨u, c₁, hplace⟩ := succeeds_placeOn p t c
      have hplace' : outcome (placeOn false p t) c = (.ok u, c₁) := hplace
      obtain ⟨u', c', hall⟩ := succeeds_placeOnEach p rest c₁
      have hwarnings := (exists_of_yields_placeOn hplace).2.1
      rw [if_pos htaken] at hwarnings
      have hreplaces : c.Replaces c₁ := ⟨_, hwarnings, _, List.mem_singleton_self _, _, _, _, rfl⟩
      have hrefused := outcome_placeOn_of_taken htaken
      refine ⟨?_, u', c', ?_, hreplaces.trans_warns (warns_of_yields_placeOnEach hall)⟩
      · rw [outcome_for_cons]
        rcases hout : outcome (placeOn true p t) c with ⟨_ | _, c₂⟩ <;> rw [hout] at hrefused
        · exact hrefused
        · cases hrefused
      · rw [outcome_for_cons, hplace']
        exact hall
  | cons t₀ free ih =>
      obtain ⟨hnew, hrest⟩ := List.nodup_cons.1 hnodup
      have hfree₀ := hfree t₀ List.mem_cons_self
      obtain ⟨u, c₁, hplace⟩ := succeeds_placeOn p t₀ c
      have hplace' : outcome (placeOn false p t₀) c = (.ok u, c₁) := hplace
      -- What is taken on the other classes does not depend on this one.
      have hkept : ∀ t' ∈ free ++ t :: rest,
          c₁.isTaken t'.1 t'.2 p.operation = c.isTaken t'.1 t'.2 p.operation :=
        fun t' ht' => isTaken_of_yields_placeOn hplace (fun heq => hnew (heq ▸ ht')) p.operation
      obtain ⟨hrefused, u', c', hall, hreplaces⟩ := ih hrest
        (fun t' ht' => (hkept t' (List.mem_append_left _ ht')).trans
          (hfree t' (List.mem_cons_of_mem t₀ ht')))
        ((hkept t (List.mem_append_right _ List.mem_cons_self)).trans htaken)
      rw [List.cons_append, outcome_for_cons, outcome_for_cons, outcome_placeOn_of_free hfree₀,
        hplace']
      refine ⟨hrefused, u', c', hall, ?_⟩
      exact Warns.trans_replaces ⟨_, (exists_of_yields_placeOn hplace).2.1.symm⟩ hreplaces

end Placing

section Operations

theorem quiet_warn {messages : List String} (h : ∀ message ∈ messages, ¬ IsReplacement message) :
    Keeps Quiet (warn messages) :=
  Keeps.modify fun _ => ⟨messages, rfl, h⟩

theorem quiet_building (m : Building α) : Keeps Quiet (building m) :=
  fun _ => Quiet.of_warnings_eq rfl

/-- Looking at an operation warns of nothing but schemas without a class. -/
theorem quiet_look (doc : Document) (o : Operation) : Keeps Quiet (look doc o) := by
  refine (quiet_building _).bind_of_yields fun rs c c' hrs => ?_
  refine (quiet_warn fun report hreport => ?_).bind fun _ => ?_
  · obtain ⟨status, mediaType, rfl⟩ :=
      Operation.exists_of_mem_unsupported (yields_building hrs) hreport
    exact not_isReplacement_inlineReport o status mediaType
  · dsimp only
    split
    · exact (quiet_building _).bind fun _ => Keeps.pure _
    · exact Keeps.pure _

/-- Looking at an operation leaves the classes as they are. -/
theorem buckets_of_yields_look {rs : Responses} (h : Yields (look doc o) c rs c') :
    c'.buckets = c.buckets := by
  obtain ⟨rs', c₁, hanalyze, h₁⟩ := yields_bind.1 h
  obtain ⟨-, hbuckets, -⟩ := yields_building_iff.1 hanalyze
  obtain ⟨_, c₂, hwarn, h₂⟩ := yields_bind.1 h₁
  obtain rfl := yields_modify.1 hwarn
  split at h₂
  · obtain ⟨_, c₃, hnote, hpure⟩ := yields_bind.1 h₂
    obtain ⟨-, hbuckets₃, -⟩ := yields_building_iff.1 hnote
    obtain ⟨-, rfl⟩ := yields_pure.1 hpure
    exact hbuckets₃.trans hbuckets
  · obtain ⟨-, rfl⟩ := yields_pure.1 h₂
    exact hbuckets

/-- The class on which another operation has taken the identifier of an operation, the first one in
the order of its tags. -/
def firstTaken? (c : Classification) (o : Operation) : Option (ClassKind × String) :=
  (Tag.targets o.tags).find? fun t => c.isTaken t.1 t.2 o

/-- A strict classification refuses an operation on a class, and a lenient one warns of it. -/
structure Refuses (doc : Document) (position : Nat) (c : Classification) (o : Operation)
    (t : ClassKind × String) : Prop where
  firstTaken : c.firstTaken? o = some t
  strict : (outcome (addOperation doc true position o) c).1 = .error (refusal o.operationId t)
  lenient : ∃ u c', Yields (addOperation doc false position o) c u c' ∧ c.Replaces c'

/-- An operation is refused by a strict classification, or treated by it as by a lenient one. -/
theorem refuses_or_outcome_addOperation (doc : Document) (position : Nat) (c : Classification)
    (o : Operation) : (∃ t, Refuses doc position c o t) ∨
      outcome (addOperation doc true position o) c = outcome (addOperation doc false position o) c ∧
        c.Quiet (outcome (addOperation doc false position o) c).2 := by
  have hquiet := quiet_look doc o c
  have hstrict (strict : Bool) : outcome (addOperation doc strict position o) c =
      match outcome (look doc o) c with
      | (.ok rs, c₁) => outcome (placeOnEach strict ⟨position, o, rs⟩ (Tag.targets o.tags)) c₁
      | (.error e, c₁) => (.error e, c₁) := by
    rw [addOperation_eq_look, outcome_bind]
    rcases outcome (look doc o) c with ⟨_ | _, c₁⟩ <;> rfl
  rcases hlook : outcome (look doc o) c with ⟨e | rs, c₁⟩ <;> rw [hlook] at hquiet
  · right
    rw [hstrict, hstrict, hlook]
    exact ⟨rfl, hquiet⟩
  · have htaken (t : ClassKind × String) (o : Operation) :
        c₁.isTaken t.1 t.2 o = c.isTaken t.1 t.2 o := by
      unfold isTaken Classification.bucket?
      rw [buckets_of_yields_look hlook]
    have hnodup := Tag.nodup_targets o.tags
    cases hfirst : c.firstTaken? o with
    | none =>
        right
        have hfree : ∀ t ∈ Tag.targets o.tags, c₁.isTaken t.1 t.2 o = false := by
          intro t ht
          rw [htaken]
          simpa using List.find?_eq_none.1 hfirst t ht
        obtain ⟨hsame, hwarnings⟩ :=
          outcome_placeOnEach_of_free (p := ⟨position, o, rs⟩) hnodup hfree
        rw [hstrict, hstrict, hlook]
        exact ⟨hsame, trans_of Quiet hquiet (.of_warnings_eq hwarnings)⟩
    | some t =>
        left
        obtain ⟨ht, free, rest, htargets, hfree⟩ := List.find?_eq_some_iff_append.1 hfirst
        obtain ⟨hrefused, u, c', hall, hreplaces⟩ :=
          outcome_placeOnEach_of_taken (c := c₁) (p := ⟨position, o, rs⟩) (htargets ▸ hnodup)
            (fun t' ht' => (htaken t' _).trans (by simpa using hfree t' ht'))
            ((htaken t _).trans ht)
        rw [← htargets] at hrefused hall
        refine ⟨t, hfirst, ?_, u, c', ?_, Quiet.warns hquiet |>.trans_replaces hreplaces⟩
        · rw [hstrict, hlook]
          exact hrefused
        · unfold Yields
          rw [hstrict, hlook]
          exact hall

/-- Places operations whose positions begin with a number. -/
def addOperationsFrom (doc : Document) (strict : Bool) (start : Nat) (operations : List Operation) :
    Classifying Unit := do
  for (o, position) in operations.zipIdx start do
    tryCatch (addOperation doc strict position o) fun fault => throw (fault.during o.label)

/-- Strict and lenient classification part at an operation after some others: they treat those
alike, without a warning of that kind, and the operation is refused by the strict one. -/
structure PartAt (doc : Document) (start : Nat) (c : Classification) (before : List Operation)
    (s : Classification) (o : Operation) (t : ClassKind × String) : Prop where
  same (prior : List Operation) : prior <+: before →
    outcome (addOperationsFrom doc true start prior) c =
      outcome (addOperationsFrom doc false start prior) c
  reached : ∃ u, Yields (addOperationsFrom doc false start before) c u s
  quiet : c.Quiet s
  refuses : Refuses doc (start + before.length) s o t

theorem outcome_addOperationsFrom_nil (strict : Bool) (start : Nat) :
    outcome (addOperationsFrom doc strict start []) c = (.ok (), c) := rfl

theorem outcome_addOperationsFrom_cons (strict : Bool) (start : Nat) (operations : List Operation) :
    outcome (addOperationsFrom doc strict start (o :: operations)) c =
      match outcome (addOperation doc strict start o) c with
      | (.ok _, c') => outcome (addOperationsFrom doc strict (start + 1) operations) c'
      | (.error fault, c') => (.error (fault.during o.label), c') := by
  unfold addOperationsFrom
  rw [List.zipIdx_cons, outcome_for_cons, outcome_rethrow]
  rcases outcome (addOperation doc strict start o) c with ⟨_ | _, c'⟩ <;> rfl

theorem warns_addOperationsFrom (doc : Document) (strict : Bool) (start : Nat)
    (operations : List Operation) : Keeps Warns (addOperationsFrom doc strict start operations) :=
  Keeps.bind (Keeps.forIn _ _ fun entry _ _ =>
    (Keeps.rethrow (keeps_addOperation doc strict entry.2 entry.1)).bind fun _ =>
      Keeps.pure _) fun _ => Keeps.pure _

/-- An operation that is treated alike moves the parting on. -/
theorem PartAt.cons {start : Nat} {before : List Operation} {s : Classification} {o o' : Operation}
    {u : Unit} (h : PartAt doc (start + 1) c' before s o' t)
    (hsame : outcome (addOperation doc true start o) c = outcome (addOperation doc false start o) c)
    (ho : Yields (addOperation doc false start o) c u c') (hquiet : c.Quiet c') :
    PartAt doc start c (o :: before) s o' t := by
  have ho' : outcome (addOperation doc false start o) c = (.ok u, c') := ho
  constructor
  case same =>
    intro prior hprior
    cases prior with
    | nil => rw [outcome_addOperationsFrom_nil, outcome_addOperationsFrom_nil]
    | cons o₁ prior =>
        obtain ⟨rfl, hrest⟩ := List.cons_prefix_cons.1 hprior
        rw [outcome_addOperationsFrom_cons, outcome_addOperationsFrom_cons, hsame, ho']
        exact h.same prior hrest
  case reached =>
    obtain ⟨u', hreached⟩ := h.reached
    refine ⟨u', ?_⟩
    unfold Yields
    rw [outcome_addOperationsFrom_cons, ho']
    exact hreached
  case quiet => exact trans_of Quiet hquiet h.quiet
  case refuses =>
    rw [List.length_cons, ← Nat.add_assoc, Nat.add_right_comm]
    exact h.refuses

/-- Either strict and lenient classification part at some operation, which the strict one fails
with, or they end alike. -/
theorem partAt_or_outcome_addOperationsFrom (doc : Document) (start : Nat)
    (operations : List Operation) (c : Classification) :
    (∃ before o after s t, operations = before ++ o :: after ∧ PartAt doc start c before s o t ∧
      (outcome (addOperationsFrom doc true start operations) c).1 =
        .error ((refusal o.operationId t).during o.label) ∧
      c.Replaces (outcome (addOperationsFrom doc false start operations) c).2) ∨
    (outcome (addOperationsFrom doc true start operations) c =
        outcome (addOperationsFrom doc false start operations) c ∧
      c.Quiet (outcome (addOperationsFrom doc false start operations) c).2) := by
  induction operations generalizing start c with
  | nil =>
      rw [outcome_addOperationsFrom_nil, outcome_addOperationsFrom_nil]
      exact .inr ⟨rfl, refl_of Quiet c⟩
  | cons o operations ih =>
      rw [outcome_addOperationsFrom_cons, outcome_addOperationsFrom_cons]
      rcases refuses_or_outcome_addOperation doc start c o with ⟨t, hrefuses⟩ | ⟨hsame, hquiet⟩
      · left
        obtain ⟨u, c', hlenient, hreplaces⟩ := hrefuses.lenient
        have hlenient' : outcome (addOperation doc false start o) c = (.ok u, c') := hlenient
        refine ⟨[], o, operations, c, t, rfl, ⟨fun prior hprior => ?_,
          ⟨(), outcome_addOperationsFrom_nil false start⟩, refl_of Quiet c, hrefuses⟩, ?_, ?_⟩
        · rw [List.prefix_nil.1 hprior, outcome_addOperationsFrom_nil,
            outcome_addOperationsFrom_nil]
        · have hstrict := hrefuses.strict
          rcases hout : outcome (addOperation doc true start o) c with ⟨_ | _, c₁⟩ <;>
            rw [hout] at hstrict
          · rw [Except.error.inj hstrict]
          · cases hstrict
        · rw [hlenient']
          exact hreplaces.trans_warns (warns_addOperationsFrom doc false _ operations c')
      · rw [hsame]
        rcases hout : outcome (addOperation doc false start o) c with ⟨fault | u, c₁⟩ <;>
          rw [hout] at hquiet
        · exact .inr ⟨rfl, hquiet⟩
        · rcases ih (start + 1) c₁ with ⟨before, o', after, s, t, rfl, hpart, hraised, hreplaces⟩ |
            ⟨hend, hquiet'⟩
          · exact .inl ⟨o :: before, o', after, s, t, rfl, hpart.cons hsame hout hquiet, hraised,
              hquiet.warns.trans_replaces hreplaces⟩
          · exact .inr ⟨hend, trans_of Quiet hquiet hquiet'⟩

/-- From every state, over every list of operations: if the lenient classification warns of no
operation that takes the place of an earlier one, the strict one ends as it does, in the same state
and with the same failure, if any.  Otherwise the two go through the same states up to the first
operation that it warns of; at this one the strict classification fails, for the first of its
classes on which another operation has its identifier. -/
theorem strict_and_lenient (doc : Document) (operations : List Operation) (c : Classification) :
    (¬ c.Replaces (outcome (addOperations doc false operations) c).2 →
      outcome (addOperations doc true operations) c =
        outcome (addOperations doc false operations) c) ∧
    (c.Replaces (outcome (addOperations doc false operations) c).2 →
      ∃ before o after s t, operations = before ++ o :: after ∧ PartAt doc 0 c before s o t ∧
        (outcome (addOperations doc true operations) c).1 = .error (.failed
          { cause := .duplicateOperation o.operationId t.2, operation := some o.label })) := by
  have hfrom (strict : Bool) :
      addOperationsFrom doc strict 0 operations = addOperations doc strict operations := rfl
  have hcases := partAt_or_outcome_addOperationsFrom doc 0 operations c
  rw [hfrom, hfrom] at hcases
  rcases hcases with ⟨before, o, after, s, t, hops, hpart, hraised, hreplaces⟩ | ⟨hend, hquiet⟩
  · exact ⟨fun hnot => absurd hreplaces hnot,
      fun _ => ⟨before, o, after, s, t, hops, hpart, hraised⟩⟩
  · exact ⟨fun _ => hend, fun hreplaces => absurd hreplaces hquiet.not_replaces⟩

/-- Two operations of one identifier, the later one on a resource and on the manager of the
earlier one. -/
def samePets : List Operation :=
  let operation (origin : Nat) (method : Method) (tags : List String) : Operation :=
    { origin, path := "/pets", method, operationId := "listPets", summary := none
      description := none, tags, parameters := [], requestBody := none, responses := []
      deprecated := false }
  [operation 0 .get ["Manager:Pet"], operation 1 .post ["Resource:Pet", "Manager:pet"]]

/-- A lenient classification warns of the later one, and a strict one fails with it. -/
theorem partAt_samePets : ∃ before o after s t, samePets = before ++ o :: after ∧
    PartAt (.ofValue .null) 0 {} before s o t ∧ o.label = "POST /pets" ∧ t.2 = "Pet" := by
  have hwarnings : (outcome (addOperations (.ofValue .null) false samePets) {}).2.warnings =
      ["operationId 'listPets' is used twice on Manager 'Pet'; POST /pets replaces the earlier " ++
        "operation"] := by
    decide +kernel
  have hraised : (outcome (addOperations (.ofValue .null) true samePets) {}).1 = .error (.failed
      { cause := .duplicateOperation "listPets" "Pet", operation := some "POST /pets" }) := by
    decide +kernel
  obtain ⟨before, o, after, s, t, hops, hpart, hraised'⟩ :=
    (strict_and_lenient (.ofValue .null) samePets {}).2
      ⟨_, hwarnings, _, List.mem_singleton_self _, .manager, "Pet", samePets[1], by decide +kernel⟩
  rw [hraised] at hraised'
  obtain ⟨hcause, hoperation⟩ := Failure.mk.inj (Fault.failed.inj (Except.error.inj hraised'))
  exact ⟨before, o, after, s, t, hops, hpart, (Option.some.inj hoperation).symm,
    (Cause.duplicateOperation.inj hcause).2.symm⟩

/-- An operation that is listed twice takes the place of no other one. -/
example : (outcome (addOperations (.ofValue .null) true
    (samePets.take 1 ++ samePets.take 1)) {}).1 = .ok () := by
  decide +kernel

end Operations

end Classification

end OpenApiClient
