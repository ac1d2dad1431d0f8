import OpenApiClient.Proofs.Buckets
import OpenApiClient.Proofs.Growth

/-!
# What a classification writes

A classification changes its state by single writes as well: it adds a class, places an
operation on a class with the responses that it has been looked at for, notes a use or a
warning, or lets the walk that looks at an operation write to what is built.  Whatever holds
across every write holds across a classification, however it ends.

So no response of a placed operation has its expression yet: the classification looks at the
responses of every operation, and leaves their expressions open.
-/

namespace OpenApiClient

open Walk

/-- No response has its expression yet. -/
def Responses.IsOpen (rs : Responses) : Prop := ∀ r ∈ rs.both, r.expression = none

def Bucket.IsOpen (b : Bucket) : Prop := ∀ q ∈ b.routes, q.2.responses.IsOpen

def Classification.IsOpen (c : Classification) : Prop := ∀ b ∈ c.buckets, b.IsOpen

/-- Classes that are open stay open. -/
def Classification.StaysOpen (c c' : Classification) : Prop := c.IsOpen → c'.IsOpen

instance : IsPreorder Classification Classification.StaysOpen where
  refl _ := id
  trans _ _ _ h h' := h' ∘ h

/-- What a response contributes is open; its type is that of an entity made on the way, and what is
reported is that its schema has no class. -/
structure Response.IsRead (doc : Document) (label : String) (b : Build)
    (r : Response × List String) (b' : Build) : Prop where
  isOpen : r.1.expression = none
  type (type : String) : r.1.typeName = some type →
    ∃ pointer, Yields (Building.ofPointer doc pointer []) b type b'
  report : ∀ report ∈ r.2, ∃ status mediaType, report = inlineReport label status mediaType

theorem Response.isRead_of_yields_ofNode {doc : Document} {label status : String}
    {node : Value} {b b' : Build} {r : Response × List String}
    (h : Yields (ofNode doc label status node) b r b') : IsRead doc label b r b' := by
  unfold ofNode at h
  obtain ⟨settled, b₁, hsettle, h₁⟩ := yields_bind.1 h
  obtain ⟨-, rfl⟩ := yields_lift.1 hsettle
  split at h₁
  · dsimp only at h₁
    split at h₁
    · obtain ⟨rfl, rfl⟩ := yields_pure.1 h₁
      exact ⟨rfl, nofun, nofun⟩
    · split at h₁
      · obtain ⟨type, b₂, hpointer, h₂⟩ := yields_bind.1 h₁
        obtain ⟨rfl, rfl⟩ := yields_pure.1 h₂
        refine ⟨rfl, ?_, nofun⟩
        rintro _ ⟨⟩
        exact ⟨_, hpointer⟩
      · obtain ⟨_, b₂, -, h₂⟩ := yields_bind.1 h₁
        obtain ⟨rfl, rfl⟩ := yields_pure.1 h₂
        exact ⟨rfl, nofun, fun report h => ⟨_, _, List.mem_singleton.1 h⟩⟩
  · obtain ⟨_, b₂, -, h₂⟩ := yields_bind.1 h₁
    obtain ⟨rfl, rfl⟩ := yields_pure.1 h₂
    exact ⟨rfl, nofun, nofun⟩

/-- What a response that may be there contributes. -/
def Response.ofNode? (doc : Document) (label : String) :
    Option (String × Value) → Building (Option (Response × List String))
  | none => pure none
  | some (status, node) => some <$> ofNode doc label status node

theorem Response.isRead_of_yields_ofNode? {doc : Document} {label : String}
    {found : Option (String × Value)} {b b' : Build} {r : Response × List String}
    (h : Yields (ofNode? doc label found) b (some r) b') : IsRead doc label b r b' := by
  cases found with
  | none =>
      obtain ⟨hnone, -⟩ := yields_pure.1 h
      cases hnone
  | some q =>
      obtain ⟨r', hr, heq⟩ := yields_map.1 h
      obtain rfl := Option.some.inj heq
      exact isRead_of_yields_ofNode hr

/-- An operation is looked at by the first response that is not the default and by the default
one. -/
theorem Operation.analyze_eq (doc : Document) (o : Operation) : o.analyze doc = (do
    let success ← Response.ofNode? doc o.label
      (o.responses.find? (·.1 != Response.defaultKey))
    let default ← Response.ofNode? doc o.label
      ((o.responses.lookup Response.defaultKey).map (Response.defaultKey, ·))
    return {
      success := success.map (·.1)
      default := default.map (·.1)
      unsupported := (success.toList ++ default.toList).flatMap (·.2) }) := by
  unfold analyze
  cases o.responses.find? (·.1 != Response.defaultKey) <;>
    cases o.responses.lookup Response.defaultKey <;> rfl

namespace Walk.Compositional

variable {P : (α : Type) → Building α → Prop} {doc : Document} (h : Compositional P)
  (hp : ∀ p, P String (Building.ofPointer doc p []))
  (hn : ∀ level origin message, P Unit (Building.note level origin message))

include h hp hn

theorem ofNode (label status : String) (node : Value) :
    P _ (Response.ofNode doc label status node) := by
  refine h.bind (h.lift _) fun settled => ?_
  split
  · dsimp only
    split
    · exact h.pure _
    · split
      · exact h.bind (hp _) fun _ => h.pure _
      · exact h.bind (hn _ _ _) fun _ => h.pure _
  · exact h.bind (hn _ _ _) fun _ => h.pure _

theorem ofNode? (label : String) (found : Option (String × Value)) :
    P _ (Response.ofNode? doc label found) := by
  cases found with
  | none => exact h.pure _
  | some q => exact h.map (h.ofNode hp hn label q.1 q.2) some

/-- An operation is looked at by making entities and by notes. -/
theorem analyze (o : Operation) : P _ (o.analyze doc) := by
  rw [Operation.analyze_eq]
  refine h.bind (h.ofNode? hp hn _ _) fun success => ?_
  exact h.bind (h.ofNode? hp hn _ _) fun default => h.pure _

end Walk.Compositional

theorem Response.keeps_ofNode? {R : Build → Build → Prop} [Build.Spans R] (doc : Document)
    (label : String) (found : Option (String × Value)) : Keeps R (ofNode? doc label found) :=
  compositional_keeps.ofNode? (fun p => Building.keeps_ofPointer doc p []) Building.keeps_note _ _

theorem Operation.keeps_analyze {R : Build → Build → Prop} [Build.Spans R] (doc : Document)
    (o : Operation) : Keeps R (o.analyze doc) :=
  compositional_keeps.analyze (fun p => Building.keeps_ofPointer doc p []) Building.keeps_note o

/-- Looking at an operation reads its two responses, one after the other. -/
theorem Operation.isRead_of_yields_analyze {doc : Document} {o : Operation} {b b' : Build}
    {rs : Responses} (h : Yields (o.analyze doc) b rs b') :
    ∃ read : List (Response × List String), rs.both = read.map (·.1) ∧
      rs.unsupported = read.flatMap (·.2) ∧
      ∀ r ∈ read, ∃ b₁ b₂, Response.IsRead doc o.label b₁ r b₂ ∧ b₂.Grows b' := by
  rw [analyze_eq] at h
  obtain ⟨success, b₁, hsuccess, h₁⟩ := yields_bind.1 h
  obtain ⟨default, b₂, hdefault, hpure⟩ := yields_bind.1 h₁
  obtain ⟨rfl, rfl⟩ := yields_pure.1 hpure
  refine ⟨success.toList ++ default.toList, ?_, rfl, fun r hr => ?_⟩
  · cases success <;> cases default <;> rfl
  · rcases List.mem_append.1 hr with hr | hr
    · obtain rfl := Option.mem_toList.1 hr
      exact ⟨b, b₁, Response.isRead_of_yields_ofNode? hsuccess,
        (Response.keeps_ofNode? doc _ _).of_yields hdefault⟩
    · obtain rfl := Option.mem_toList.1 hr
      exact ⟨b₁, b', Response.isRead_of_yields_ofNode? hdefault, refl_of Build.Grows b'⟩

/-- Responses are looked at without their expressions. -/
theorem Operation.isOpen_of_yields_analyze {doc : Document} {o : Operation} {b b' : Build}
    {rs : Responses} (h : Yields (o.analyze doc) b rs b') : rs.IsOpen := by
  obtain ⟨read, hboth, -, hread⟩ := isRead_of_yields_analyze h
  intro r hr
  rw [hboth] at hr
  obtain ⟨q, hq, rfl⟩ := List.mem_map.1 hr
  obtain ⟨b₁, b₂, hq, -⟩ := hread q hq
  exact hq.isOpen

/-- What is reported of an operation are schemas without classes. -/
theorem Operation.exists_of_mem_unsupported {doc : Document} {o : Operation} {b b' : Build}
    {rs : Responses} (h : Yields (o.analyze doc) b rs b') {report : String}
    (hr : report ∈ rs.unsupported) :
    ∃ status mediaType, report = Response.inlineReport o.label status mediaType := by
  obtain ⟨read, -, hunsupported, hread⟩ := isRead_of_yields_analyze h
  rw [hunsupported] at hr
  obtain ⟨q, hq, hr⟩ := List.mem_flatMap.1 hr
  obtain ⟨b₁, b₂, hq, -⟩ := hread q hq
  exact hq.report report hr

namespace Bucket

theorem isOpen_addUse {b : Bucket} (h : b.IsOpen) (name : String) : (b.addUse name).IsOpen := by
  unfold addUse
  split <;> exact h

theorem isOpen_place {b : Bucket} (h : b.IsOpen) {p : PlacedOperation}
    (hp : p.responses.IsOpen) : (b.place p).IsOpen := by
  unfold place
  dsimp only
  split
  · intro q hq
    obtain ⟨q', hq', rfl⟩ := List.mem_map.1 hq
    split
    · exact hp
    · exact h q' hq'
  · intro q hq
    rcases List.mem_append.1 hq with hq | hq
    · exact h q hq
    · obtain rfl := List.mem_singleton.1 hq
      exact hp

end Bucket

namespace Classification

variable {α : Type}

/-- The classification with one class changed. -/
def withBucket (c : Classification) (kind : ClassKind) (name : String) (f : Bucket → Bucket) :
    Classification :=
  { c with buckets := c.buckets.map fun b => if b.kind = kind && b.name = name then f b else b }

/-- Places an operation on one of its classes, which then uses the types that it names. -/
def placeOn (strict : Bool) (p : PlacedOperation) (target : ClassKind × String) :
    Classifying Unit := do
  addBucket target.1 target.2
  addRoute strict target.1 target.2 p
  if target.1 = .manager then
    for resource in p.operation.firstResource? do
      modifyBucket target.1 target.2 (·.addUse resource)
  for type in p.responses.referencedTypes do
    modifyBucket target.1 target.2 (·.addUse type)

/-- An operation is looked at, and then placed on its classes one after the other. -/
theorem addOperation_eq (doc : Document) (strict : Bool) (position : Nat) (o : Operation) :
    addOperation doc strict position o = (do
      let responses ← building (o.analyze doc)
      warn responses.unsupported
      if (Tag.targets o.tags).isEmpty then
        building (Building.note .debug "compiler.classifier"
          (o.label ++ " has no Manager/Resource tag; not generated"))
      for target in Tag.targets o.tags do
        placeOn strict ⟨position, o, responses⟩ target) := by
  have hplace (p : PlacedOperation) (target : ClassKind × String) : (do
        placeOn strict p target
        pure (ForInStep.yield PUnit.unit) : Classifying (ForInStep PUnit)) = (do
        addBucket target.1 target.2
        addRoute strict target.1 target.2 p
        if target.1 = .manager then
          for resource in p.operation.firstResource? do
            modifyBucket target.1 target.2 (·.addUse resource)
        for type in p.responses.referencedTypes do
          modifyBucket target.1 target.2 (·.addUse type)
        pure (ForInStep.yield PUnit.unit)) := by
    unfold placeOn
    simp only [bind_assoc]
    refine bind_congr fun _ => bind_congr fun _ => ?_
    split <;> simp only [bind_assoc, pure_bind]
  unfold addOperation
  simp only [hplace]
  rfl

/-- One write to a classification. -/
inductive Write : Classification → Classification → Prop
  | build (c : Classification) {b : Build} (h : c.build.Write b) :
      Write c { c with build := b }
  | warn (c : Classification) (messages : List String) :
      Write c { c with warnings := c.warnings ++ messages }
  | addBucket (c : Classification) (kind : ClassKind) (name : String) :
      Write c { c with buckets := c.buckets ++ [{ kind, name }] }
  | place (c : Classification) (kind : ClassKind) (name : String) {p : PlacedOperation}
      {doc : Document} {b b' : Build} (h : Yields (p.operation.analyze doc) b p.responses b') :
      Write c (c.withBucket kind name (·.place p))
  | addUse (c : Classification) (kind : ClassKind) (name type : String) :
      Write c (c.withBucket kind name (·.addUse type))

/-- A preorder of classifications that holds across every single write. -/
class Spans (R : Classification → Classification → Prop) : Prop
    extends IsPreorder Classification R where
  of_write {c c' : Classification} : Write c c' → R c c'

theorem isOpen_withBucket {c : Classification} (h : c.IsOpen) (kind : ClassKind) (name : String)
    {f : Bucket → Bucket} (hf : ∀ b : Bucket, b.IsOpen → (f b).IsOpen) :
    (c.withBucket kind name f).IsOpen := by
  intro b hb
  obtain ⟨b', hb', rfl⟩ := List.mem_map.1 hb
  split
  · exact hf b' (h b' hb')
  · exact h b' hb'

instance : Spans StaysOpen where
  of_write h hopen := by
    cases h with
    | build h => exact hopen
    | warn messages => exact hopen
    | addBucket kind name =>
        intro b hb
        rcases List.mem_append.1 hb with hb | hb
        · exact hopen b hb
        · obtain rfl := List.mem_singleton.1 hb
          exact fun q hq => nomatch hq
    | place kind name h =>
        exact isOpen_withBucket hopen kind name fun b hb =>
          Bucket.isOpen_place hb (Operation.isOpen_of_yields_analyze h)
    | addUse kind name type =>
        exact isOpen_withBucket hopen kind name fun b hb => Bucket.isOpen_addUse hb type

/-- What a classification writes to what is built. -/
def WritesBuild (c c' : Classification) : Prop := c.build.Writes c'.build

instance : Spans WritesBuild where
  refl c := refl_of Build.Writes c.build
  trans _ _ _ := trans_of Build.Writes
  of_write h := by
    cases h with
    | build h => exact .single h
    | warn | addBucket | place | addUse => exact .refl

/-- What the walk inside the classification gives is given by the walk itself. -/
theorem yields_building {m : Building α} {c c' : Classification} {a : α}
    (h : Yields (building m) c a c') : Yields m c.build a c'.build := by
  have heq : (outcome m c.build).1 = .ok a := congrArg Prod.fst h
  have hbuild : (outcome m c.build).2 = c'.build := congrArg (·.2.build) h
  exact Prod.ext heq hbuild

section Keeps

variable {R : Classification → Classification → Prop} [Spans R]

theorem keeps_building {m : Building α} (hm : Keeps Build.Writes m) :
    Keeps R (building m) := by
  intro c
  have hwrites : ∀ b : Build, c.build.Writes b → R c { c with build := b } := by
    intro b h
    induction h with
    | refl => exact refl_of R c
    | tail _ h ih => exact trans_of R ih (Spans.of_write (.build _ h))
  exact hwrites _ (hm c.build)

theorem keeps_warn (messages : List String) : Keeps R (warn messages) :=
  Keeps.modify fun c => Spans.of_write (.warn c messages)

theorem keeps_addUse (kind : ClassKind) (name type : String) :
    Keeps R (modifyBucket kind name (·.addUse type)) :=
  Keeps.modify fun c => Spans.of_write (.addUse c kind name type)

theorem keeps_addBucket (kind : ClassKind) (name : String) :
    Keeps R (addBucket kind name) := by
  refine Keeps.get.bind fun c => ?_
  split
  · exact Keeps.pure _
  · refine Keeps.bind (Keeps.modify fun c => ?_) fun _ => ?_
    · exact Spans.of_write (.addBucket c kind name)
    · split
      · exact keeps_building (Building.keeps_register name)
      · exact Keeps.pure _

theorem keeps_addRoute (strict : Bool) (kind : ClassKind) (name : String)
    {p : PlacedOperation} {doc : Document} {b b' : Build}
    (hp : Yields (p.operation.analyze doc) b p.responses b') :
    Keeps R (addRoute strict kind name p) := by
  have hplace : Keeps R (modifyBucket kind name (·.place p)) :=
    Keeps.modify fun c => Spans.of_write (.place c kind name hp)
  have hreplace (message : String) : Keeps R (do
      building (Building.note .warning "compiler.classifier" message)
      warn [message]
      modifyBucket kind name (·.place p)) :=
    (keeps_building (Building.keeps_note _ _ _)).bind fun _ =>
      (keeps_warn _).bind fun _ => hplace
  refine Keeps.get.bind fun c => ?_
  dsimp only
  split
  · split
    · exact (Keeps.throw _).bind fun _ => hreplace _
    · exact hreplace _
  · exact hplace

theorem keeps_placeOn (strict : Bool) {p : PlacedOperation} (target : ClassKind × String)
    {doc : Document} {b b' : Build} (hp : Yields (p.operation.analyze doc) b p.responses b') :
    Keeps R (placeOn strict p target) := by
  have htypes : Keeps R (do
      for type in p.responses.referencedTypes do
        modifyBucket target.1 target.2 (·.addUse type)) := by
    refine (Keeps.forIn _ _ fun type _ _ => ?_).bind fun _ => Keeps.pure _
    exact (keeps_addUse _ _ type).bind fun _ => Keeps.pure _
  refine (keeps_addBucket _ _).bind fun _ => (keeps_addRoute strict _ _ hp).bind fun _ => ?_
  dsimp only
  split
  · cases p.operation.firstResource? with
    | none => exact (Keeps.pure _).bind fun _ => htypes
    | some resource =>
        refine Keeps.bind ?_ fun _ => htypes
        refine Keeps.bind ((keeps_addUse _ _ resource).bind fun _ => Keeps.pure _) fun step => ?_
        cases step <;> exact Keeps.pure _
  · exact htypes

theorem keeps_addOperation (doc : Document) (strict : Bool) (position : Nat) (o : Operation) :
    Keeps R (addOperation doc strict position o) := by
  rw [addOperation_eq]
  refine (keeps_building (o.keeps_analyze doc)).bind_of_yields fun rs c c' hrs => ?_
  have hall : Keeps R (do
      for target in Tag.targets o.tags do
        placeOn strict ⟨position, o, rs⟩ target) := by
    refine (Keeps.forIn _ _ fun target _ _ => Keeps.bind ?_ fun _ => Keeps.pure _).bind
      fun _ => Keeps.pure _
    exact keeps_placeOn strict target (p := ⟨position, o, rs⟩) (yields_building hrs)
  refine (keeps_warn _).bind fun _ => ?_
  dsimp only
  split
  · exact (keeps_building (Building.keeps_note _ _ _)).bind fun _ => hall
  · exact hall

theorem keeps_addOperations (doc : Document) (strict : Bool) (operations : List Operation) :
    Keeps R (addOperations doc strict operations) :=
  Keeps.bind (Keeps.forIn _ _ fun entry _ _ =>
    (Keeps.rethrow (keeps_addOperation doc strict entry.2 entry.1)).bind fun _ =>
      Keeps.pure _) fun _ => Keeps.pure _

end Keeps

theorem writes_of_yields_addOperations {doc : Document} {strict : Bool}
    {operations : List Operation} {c c' : Classification} {u : Unit}
    (h : Yields (addOperations doc strict operations) c u c') : c.build.Writes c'.build :=
  (keeps_addOperations (R := WritesBuild) doc strict operations).of_yields h

/-- The classes of a description have open responses, however the classification ends. -/
theorem isOpen_ofOperations (doc : Document) (strict : Bool) (operations : List Operation) :
    (ofOperations doc strict operations).2.IsOpen :=
  keeps_addOperations (R := StaysOpen) doc strict operations {} fun _ hb => nomatch hb

end Classification

end OpenApiClient
