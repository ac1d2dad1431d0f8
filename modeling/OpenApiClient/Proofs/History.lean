import OpenApiClient.Proofs.Assembly
import OpenApiClient.Proofs.Placement
import Mathlib.Data.List.Chain

/-!
# The history of a registry

A session classifies operations, completes responses, takes parameters off operations, makes
entities and makes libraries, in any order and as often as it likes; a step that fails leaves
what it has done, and the session goes on.  All that happens to the registry meanwhile is a
chain of single writes.  Along this chain names, properties and uses only come to stand behind
those that are there, and whatever point it has reached, no name, no property of an entity and
no use of an entity stands twice, and no entity uses itself.
-/

namespace OpenApiClient

open Walk

namespace Registry

/-- What is in a registry is in a later one: in the same order, in front of what has come to it,
and unchanged. -/
structure Continues (r r' : Registry) : Prop where
  names : r.names <+: r'.names
  entity (name : String) (e : Entity) : r.get? name = some e →
    ∃ e', r'.get? name = some e' ∧ e.properties <+: e'.properties ∧ e.uses <+: e'.uses

theorem Grows.names {r r' : Registry} (h : r.Grows r') : r.names <+: r'.names := by
  rw [List.prefix_iff_getElem?]
  intro i hi
  have hi' : i < r.entities.length := by simpa [Registry.names] using hi
  obtain ⟨e', he', g⟩ := h i r.entities[i] (List.getElem?_eq_getElem hi')
  simp [Registry.names, he', g.name_eq]

theorem Grows.continues {r r' : Registry} (h : r.Grows r') : r.Continues r' where
  names := h.names
  entity _ _ he := by
    obtain ⟨e', he', g⟩ := h.get? he
    exact ⟨e', he', g.properties, g.uses⟩

end Registry

/-- No property and no use of an entity stands twice, and it does not use itself. -/
structure Entity.IsProper (e : Entity) : Prop where
  properties : (e.properties.map (·.name)).Nodup
  uses : e.uses.Nodup
  not_self : e.name ∉ e.uses

/-- No name stands twice, and all entities are proper. -/
structure Registry.IsProper (r : Registry) : Prop where
  names : r.names.Nodup
  entity : ∀ e ∈ r.entities, e.IsProper

namespace Entity.IsProper

variable {e : Entity}

theorem addUse (h : e.IsProper) (name : String) : (e.addUse name).IsProper := by
  unfold Entity.addUse
  split
  · exact h
  · next hnew =>
      obtain ⟨hself, hused⟩ : name ≠ e.name ∧ name ∉ e.uses := by simpa using hnew
      refine ⟨h.properties, by simpa using h.uses.concat hused, ?_⟩
      simpa [h.not_self] using hself.symm

theorem addProperty (h : e.IsProper) (p : Property) : (e.addProperty p).IsProper := by
  unfold Entity.addProperty
  split
  · exact h
  · next hnew =>
      have hname : p.name ∉ e.properties.map (·.name) := by
        simpa [hasProperty, property?] using hnew
      refine ⟨?_, h.uses, h.not_self⟩
      simpa using h.properties.concat hname

end Entity.IsProper

namespace Registry

theorem IsProper.modify {r : Registry} (h : r.IsProper) (name : String) {f : Entity → Entity}
    (hname : ∀ e, (f e).name = e.name) (hf : ∀ e, e.IsProper → (f e).IsProper) :
    (r.modify name f).IsProper := by
  refine ⟨names_modify r name hname ▸ h.names, fun e he => ?_⟩
  obtain ⟨e₀, he₀, rfl⟩ := List.mem_map.1 he
  split
  · exact hf e₀ (h.entity e₀ he₀)
  · exact h.entity e₀ he₀

theorem IsProper.register {r : Registry} (h : r.IsProper) (name : String) :
    (r.register name).IsProper := by
  unfold Registry.register
  split
  · exact h
  · next hnew =>
      have hname : name ∉ r.names := by rwa [← contains_iff_mem_names]
      constructor
      · simpa [Registry.names] using h.names.concat hname
      · intro e he
        rcases List.mem_append.1 he with he | he
        · exact h.entity e he
        · obtain rfl := List.mem_singleton.1 he
          exact ⟨List.nodup_nil, List.nodup_nil, List.not_mem_nil⟩

theorem IsProper.of_write {r r' : Registry} (h : r.IsProper) (hw : r.Write r') :
    r'.IsProper := by
  cases hw with
  | register name => exact h.register name
  | addUse entity name =>
      exact h.modify entity (fun e => e.name_addUse name) fun e he => he.addUse name
  | addProperty entity p =>
      exact h.modify entity (fun e => e.name_addProperty p) fun e he => he.addProperty p

end Registry

namespace Library

section Assembling

variable {α β : Type} {R : Build → Build → Prop} [Build.Spans R]

/-- Whatever responses have their expressions, the making keeps a relation. -/
def AssemblingKeeps (R : Build → Build → Prop) (m : Assembling α) : Prop :=
  ∀ memo, Keeps R (m.run memo)

theorem AssemblingKeeps.pure (a : α) : AssemblingKeeps R (Pure.pure a) :=
  fun memo => Keeps.pure (a, memo)

theorem AssemblingKeeps.bind {m : Assembling α} {f : α → Assembling β}
    (hm : AssemblingKeeps R m) (hf : ∀ a, AssemblingKeeps R (f a)) :
    AssemblingKeeps R (m >>= f) := by
  intro memo
  rw [StateT.run_bind]
  exact (hm memo).bind fun out => hf out.1 out.2

theorem AssemblingKeeps.building {m : Building α} (hm : Keeps R m) :
    AssemblingKeeps R (liftM m : Assembling α) :=
  fun _ => hm.bind fun _ => Keeps.pure _

theorem AssemblingKeeps.except (x : Except Fault α) :
    AssemblingKeeps R (liftM x : Assembling α) :=
  AssemblingKeeps.building (Keeps.lift x)

omit [Build.Spans R] in
theorem AssemblingKeeps.rethrow {m : Assembling α} {g : Fault → Fault}
    (hm : AssemblingKeeps R m) :
    AssemblingKeeps R (tryCatch m fun e => MonadExcept.throw (g e)) :=
  fun memo => (hm memo).rethrow

theorem AssemblingKeeps.mapM {f : α → Assembling β} (l : List α)
    (hf : ∀ a, AssemblingKeeps R (f a)) : AssemblingKeeps R (l.mapM f) := by
  induction l with
  | nil => exact AssemblingKeeps.pure []
  | cons a l ih =>
      rw [List.mapM_cons]
      exact (hf a).bind fun _ => ih.bind fun _ => AssemblingKeeps.pure _

theorem keeps_completed (p : PlacedOperation) : AssemblingKeeps R (completed p) := by
  have hget : AssemblingKeeps R (get : Assembling (List (Nat × Responses))) :=
    fun memo => Keeps.pure (memo, memo)
  refine hget.bind fun memo => ?_
  split
  · exact AssemblingKeeps.pure _
  · refine (AssemblingKeeps.building Building.keeps_registry).bind fun r => ?_
    exact AssemblingKeeps.bind (fun memo => Keeps.pure _) fun _ => AssemblingKeeps.pure _

theorem keeps_route (doc : Document) (kind : ClassKind) (className : String)
    (p : PlacedOperation) : AssemblingKeeps R (route doc kind className p) := by
  refine (keeps_completed p).bind fun rs => ?_
  refine (AssemblingKeeps.building Building.keeps_registry).bind fun r => ?_
  refine (AssemblingKeeps.except _).bind fun path => (AssemblingKeeps.except _).bind fun query => ?_
  refine (AssemblingKeeps.building (Building.keeps_inBody _)).bind fun body => ?_
  refine (AssemblingKeeps.building (keeps_ofMethod doc _ _ _)).bind fun ps => ?_
  exact (AssemblingKeeps.except _).bind fun type => AssemblingKeeps.except _

theorem keeps_routes (doc : Document) (b : Bucket) : AssemblingKeeps R (routes doc b) := by
  refine (AssemblingKeeps.mapM _ fun entry => ?_).bind fun made => AssemblingKeeps.pure _
  refine (keeps_route doc _ _ _).rethrow.bind fun m => ?_
  refine (AssemblingKeeps.building Building.keeps_registry).bind fun r => ?_
  exact (AssemblingKeeps.except _).bind fun types => AssemblingKeeps.pure _

theorem keeps_ofClassification (d : Description) (s : Settings) (c : Classification) :
    Keeps R (ofClassification d s c) := by
  have hmanagers (f : Bucket → List Route × List String → GeneratedClass) :
      AssemblingKeeps R ((c.ofKind .manager).mapM fun b => do
        return f b (← routes d.document b)) :=
    AssemblingKeeps.mapM _ fun b =>
      (keeps_routes d.document b).bind fun _ => AssemblingKeeps.pure _
  have hresources : AssemblingKeeps R ((c.ofKind .resource).mapM fun b => do
      return (b, ← routes d.document b)) :=
    AssemblingKeeps.mapM _ fun b =>
      (keeps_routes d.document b).bind fun _ => AssemblingKeeps.pure _
  refine Keeps.bind ?_ fun made => ?_
  · exact ((hmanagers _).bind fun managers => hresources.bind fun tagged =>
      AssemblingKeeps.pure _) []
  · exact Building.keeps_registry.bind fun r =>
      (Building.keeps_note _ _ _).bind fun _ => Keeps.pure _

end Assembling

end Library

/-- A session: what has been classified, with what has been built, and the responses that have
their expressions. -/
structure Session where
  classification : Classification := {}
  responses : List (Nat × Responses) := []

namespace Session

/-- The registry of a session. -/
def registry (s : Session) : Registry := s.classification.build.registry

/-- The session after a walk along what is built, whether the walk succeeds or fails. -/
def after {α : Type} (s : Session) (m : Building α) : Session :=
  { s with classification :=
      { s.classification with build := (outcome m s.classification.build).2 } }

/-- The session after a classification, whether it succeeds or fails. -/
def afterClassifying (s : Session) (m : Classifying Unit) : Session :=
  { s with classification := (outcome m s.classification).2 }

/-- The session after responses have got their expressions. -/
def afterCompleting (s : Session) (m : Library.Assembling Responses) : Session :=
  let walk := m.run s.responses
  match (outcome walk s.classification.build).1 with
  | .ok (_, responses) => { s.after walk with responses }
  | .error _ => s.after walk

/-- What a session does next. -/
inductive Step where
  /-- Goes on without the classes and warnings there are. -/
  | restart
  | classify (strict : Bool) (operations : List Operation)
  | complete (p : PlacedOperation)
  | inPath (kind : ClassKind) (className : String) (o : Operation)
  | inQuery (kind : ClassKind) (className : String) (o : Operation)
  | inBody (o : Operation)
  | ofMethod (kind : ClassKind) (className : String) (o : Operation)
  | ofSchema (name : String) (schema : Value) (ancestry : List String)
  | ofPointer (pointer : Value) (ancestry : List String)
  | assemble (d : Description) (settings : Settings)

/-- The session after a step. -/
def perform (doc : Document) (s : Session) : Step → Session
  | .restart => { s with classification := { build := s.classification.build } }
  | .classify strict operations =>
    s.afterClassifying (Classification.addOperations doc strict operations)
  | .complete p => s.afterCompleting (Library.completed p)
  | .inPath kind className o => s.after do
    Parameter.inPath doc (← Building.registry) kind className o
  | .inQuery kind className o => s.after do
    Parameter.inQuery doc (← Building.registry) kind className o
  | .inBody o => s.after (Parameter.inBody doc o)
  | .ofMethod kind className o => s.after (Parameter.ofMethod doc kind className o)
  | .ofSchema name schema ancestry => s.after (Building.ofSchema doc name schema ancestry)
  | .ofPointer pointer ancestry => s.after (Building.ofPointer doc pointer ancestry)
  | .assemble d settings =>
    s.after (Library.ofClassification { d with document := doc } settings s.classification)

/-- The sessions before, between and after steps. -/
def history (doc : Document) (s : Session) : List Step → List Session
  | [] => [s]
  | step :: rest => s :: history doc (s.perform doc step) rest

theorem writes_after {α : Type} (s : Session) {m : Building α} (hm : Keeps Build.Writes m) :
    s.classification.build.Writes (s.after m).classification.build :=
  hm s.classification.build

/-- Every step writes, and does nothing else to what is built. -/
theorem writes_perform (doc : Document) (s : Session) (step : Step) :
    s.classification.build.Writes (s.perform doc step).classification.build := by
  cases step with
  | restart => exact .refl
  | classify strict operations =>
      exact Classification.keeps_addOperations (R := Classification.WritesBuild) doc strict
        operations s.classification
  | complete p =>
      have hwrites := s.writes_after (Library.keeps_completed p s.responses)
      unfold perform afterCompleting
      dsimp only
      split <;> exact hwrites
  | inPath kind className o =>
      exact s.writes_after (Building.keeps_registry.bind fun r => Keeps.lift _)
  | inQuery kind className o =>
      exact s.writes_after (Building.keeps_registry.bind fun r => Keeps.lift _)
  | inBody o => exact s.writes_after (Building.keeps_inBody o)
  | ofMethod kind className o => exact s.writes_after (Library.keeps_ofMethod doc kind className o)
  | ofSchema name schema ancestry =>
      exact s.writes_after (Building.keeps_materialize doc _ _ name schema)
  | ofPointer pointer ancestry =>
      exact s.writes_after (Building.keeps_ofPointer doc pointer ancestry)
  | assemble d settings => exact s.writes_after (Library.keeps_ofClassification _ _ _)

end Session

/-- The writes to a state make a chain of writes to its registry. -/
theorem Build.Writes.registry {b b' : Build} (h : b.Writes b') :
    Relation.ReflTransGen Registry.Write b.registry b'.registry := by
  induction h with
  | refl => exact .refl
  | tail _ hw ih =>
      cases hw with
      | note | useUp => exact ih
      | registry h => exact ih.tail h

theorem Registry.IsProper.empty : ({} : Registry).IsProper :=
  ⟨List.nodup_nil, fun _ he => nomatch he⟩

/-- Whatever has been written to it, a registry is proper. -/
theorem Build.Writes.isProper {b : Build} (h : ({} : Build).Writes b) : b.registry.IsProper := by
  have hwrites : Relation.ReflTransGen Registry.Write {} b.registry := h.registry
  generalize b.registry = r at hwrites
  induction hwrites with
  | refl => exact .empty
  | tail _ hw ih => exact ih.of_write hw

/-- The registries of a session are points of one chain of writes. -/
theorem Session.exists_chain (doc : Document) (s : Session) (steps : List Step) :
    ∃ points : List Registry, (s.registry :: points).IsChain (Relation.ReflGen Registry.Write) ∧
      ((history doc s steps).map registry).Sublist (s.registry :: points) := by
  induction steps generalizing s with
  | nil => exact ⟨[], .singleton _, List.Sublist.refl _⟩
  | cons step rest ih =>
      obtain ⟨points, hchain, hsub⟩ := ih (s.perform doc step)
      have hwrites : Relation.ReflTransGen Registry.Write s.registry
          (s.perform doc step).registry := (s.writes_perform doc step).registry
      obtain ⟨between, hbetween, hlast⟩ := List.exists_isChain_cons_of_relationReflTransGen hwrites
      refine ⟨between ++ (s.perform doc step).registry :: points, ?_, ?_⟩
      · rw [← List.cons_append, List.isChain_append]
        refine ⟨hbetween.imp fun _ _ => .single, hchain, fun r hr r' hr' => ?_⟩
        rw [List.getLast?_eq_some_getLast (List.cons_ne_nil _ _), hlast] at hr
        cases hr
        cases hr'
        exact .refl
      · exact (hsub.trans (List.sublist_append_right _ _)).cons_cons _

/-- However a session goes on, its registry only grows: there is one chain, from the empty registry
on, on which all registries of the session lie and no two neighbours are more than one write
apart; each point of the chain continues every earlier one, and is proper. -/
theorem registry_of_history (doc : Document) (steps : List Session.Step) :
    ∃ points : List Registry, points.head? = some {} ∧
      points.IsChain (Relation.ReflGen Registry.Write) ∧
      ((Session.history doc {} steps).map Session.registry).Sublist points ∧
      points.Pairwise Registry.Continues ∧ ∀ r ∈ points, r.IsProper := by
  obtain ⟨points, hchain, hsub⟩ := Session.exists_chain doc {} steps
  have hgrows : ({} :: points : List Registry).Pairwise Registry.Grows := by
    refine List.isChain_iff_pairwise.1 (hchain.imp fun r r' h => ?_)
    cases h with
    | refl => exact Registry.Grows.refl
    | single h => exact h.grows
  have hproper : ∀ r ∈ ({} :: points : List Registry), r.IsProper := by
    refine hchain.induction _ _ (fun r r' h hr => ?_) fun _ => ?_
    · cases h with
      | refl => exact hr
      | single h => exact hr.of_write h
    · exact .empty
  exact ⟨{} :: points, rfl, hchain, hsub, hgrows.imp Registry.Grows.continues, hproper⟩

end OpenApiClient
