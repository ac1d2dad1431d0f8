import OpenApiClient.Proofs.History
import OpenApiClient.Proofs.Reflection

/-!
# Which operations become which methods

A library has the classes that the tags of its operations name.  A class has one method for each
identifier of the operations that are placed on it, where the identifier is first met, and the
method is that of the operation that comes last.  Whichever of its classes an operation ends up
on, its responses are the same.
-/

namespace OpenApiClient

open Walk

/-- The operations that tags place on a class, each with its position. -/
def operationsOn (operations : List Operation) (kind : ClassKind) (name : String) :
    List (Operation × Nat) :=
  operations.zipIdx.filter (·.1.isOn kind name)

/-- The last operation of an identifier that tags place on a class, with its position. -/
def lastOn? (operations : List Operation) (kind : ClassKind) (name id : String) :
    Option (Operation × Nat) :=
  (operationsOn operations kind name).reverse.find? (·.1.operationId == id)

/-- The last operation comes after every other one of its identifier and its class. -/
theorem le_of_lastOn? {operations : List Operation} {kind : ClassKind} {name id : String}
    {last : Operation × Nat} (h : lastOn? operations kind name id = some last)
    {o : Operation} {i : Nat} (hmem : (o, i) ∈ operations.zipIdx)
    (hon : o.isOn kind name = true) (hid : o.operationId = id) : i ≤ last.2 := by
  have hpositions : (operations.zipIdx.map (·.2)).Pairwise (· < ·) := by
    rw [List.zipIdx_map_snd]
    exact List.pairwise_lt_range'
  have hsorted : (operationsOn operations kind name).reverse.Pairwise fun a b => b.2 < a.2 :=
    List.pairwise_reverse.2 ((List.pairwise_map.1 hpositions).filter _)
  obtain ⟨-, before, after, heq, hbefore⟩ := List.find?_eq_some_iff_append.1 h
  have hin : (o, i) ∈ before ++ last :: after := by
    rw [← heq, List.mem_reverse]
    exact List.mem_filter.2 ⟨hmem, hon⟩
  rw [heq] at hsorted
  rcases List.mem_append.1 hin with hb | hl
  · exact absurd hid (by simpa using hbefore _ hb)
  · rcases List.mem_cons.1 hl with rfl | ha
    · exact le_rfl
    · exact ((List.pairwise_cons.1 (List.pairwise_append.1 hsorted).2.1).1 _ ha).le

theorem mem_of_lastOn? {operations : List Operation} {kind : ClassKind} {name id : String}
    {last : Operation × Nat} (h : lastOn? operations kind name id = some last) :
    last ∈ operations.zipIdx ∧ last.1.isOn kind name = true ∧ last.1.operationId = id := by
  obtain ⟨hmem, hon⟩ := List.mem_filter.1 (List.mem_reverse.1 (List.mem_of_find?_eq_some h))
  exact ⟨hmem, hon, by simpa using List.find?_some h⟩

/-- An operation that is the last one on two classes is listed at one position as the last one. -/
theorem position_eq_of_lastOn? {operations : List Operation} {kind kind' : ClassKind}
    {name name' id id' : String} {o : Operation} {i i' : Nat}
    (h : lastOn? operations kind name id = some (o, i))
    (h' : lastOn? operations kind' name' id' = some (o, i')) : i = i' := by
  obtain ⟨hmem, hon, hid⟩ := mem_of_lastOn? h
  obtain ⟨hmem', hon', hid'⟩ := mem_of_lastOn? h'
  exact le_antisymm (le_of_lastOn? h' hmem hon' hid') (le_of_lastOn? h hmem' hon hid)

section Placed

variable {operations : List Operation} {ps : List PlacedOperation}

theorem operationsOn_eq (h : ps.map (fun p => (p.operation, p.position)) = operations.zipIdx)
    (kind : ClassKind) (name : String) : operationsOn operations kind name =
      (ps.filter (·.operation.isOn kind name)).map fun p => (p.operation, p.position) := by
  rw [operationsOn, ← h, List.filter_map]
  rfl

theorem exists_placed_iff (h : ps.map (fun p => (p.operation, p.position)) = operations.zipIdx)
    (kind : ClassKind) (name : String) : (∃ p ∈ ps, p.operation.isOn kind name = true) ↔
      ∃ o ∈ operations, o.isOn kind name = true := by
  have hops : operations = ps.map (·.operation) := by
    rw [← List.zipIdx_map_fst 0 operations, ← h, List.map_map]
    rfl
  simp [hops]

theorem lastOn?_eq (h : ps.map (fun p => (p.operation, p.position)) = operations.zipIdx)
    (kind : ClassKind) (name id : String) : lastOn? operations kind name id =
      (Bucket.last? (ps.filter (·.operation.isOn kind name)) id).map
        fun p => (p.operation, p.position) := by
  rw [lastOn?, operationsOn_eq h, ← List.map_reverse, List.find?_map]
  rfl

end Placed

namespace Library

/-- The classes of a library, with their methods. -/
inductive HasClass (l : Library) : ClassKind → String → List Route → Prop
  | manager {c : GeneratedClass} (h : c ∈ l.managers) : HasClass l .manager c.name c.routes
  | resource {c : ResourceClass} (h : c ∈ l.resources) : HasClass l .resource c.name c.routes

/-- A library has the classes that tags name and on each class the last operation of every
identifier; what an operation responds with does not depend on the class that it is on. -/
structure FollowsTags (l : Library) (operations : List Operation) : Prop where
  nodup_managers : (l.managers.map (·.name)).Nodup
  mem_managers_iff (name : String) :
    name ∈ l.managers.map (·.name) ↔ ∃ o ∈ operations, o.isOn .manager name = true
  nodup_resources : (l.resources.map (·.name)).Nodup
  mem_resources (name : String) :
    (∃ o ∈ operations, o.isOn .resource name = true) → name ∈ l.resources.map (·.name)
  ids {kind : ClassKind} {name : String} {routes : List Route} : l.HasClass kind name routes →
    routes.map (·.id) = ((operationsOn operations kind name).map (·.1.operationId)).eraseDups
  last {kind : ClassKind} {name : String} {routes : List Route} : l.HasClass kind name routes →
    ∀ m ∈ routes, ∃ i, lastOn? operations kind name m.id = some (m.operation, i)
  shared {kind kind' : ClassKind} {name name' : String} {routes routes' : List Route}
    {m m' : Route} : l.HasClass kind name routes → m ∈ routes → l.HasClass kind' name' routes' →
    m' ∈ routes' → m.operation = m'.operation → m.responses = m'.responses

/-- A method is made of a placed operation, and the responses found for it are those of the
method. -/
def MadeAs (x : Assembly) (p : PlacedOperation) (m : Route) : Prop :=
  m.operation = p.operation ∧ x.1.lookup p.position = some m.responses

variable {d : Description} {s : Settings} {l : Library} {c : Classification}
  {tagged : List (Bucket × List Route × List String)} {x final : Assembly}

theorem MadeAs.mono {doc : Document} {es : List Entry} {x x' : Assembly} {ms : List Route}
    (hsteps : Along (Makes doc) es x ms x') {p : PlacedOperation} {m : Route}
    (h : MadeAs x p m) : MadeAs x' p m := by
  refine hsteps.invariant (I := fun _ x => MadeAs x p m) h fun _ e x m' x' _ hI hmakes => ?_
  exact ⟨hI.1, lookup_mono_of_makes hmakes hI.2⟩

/-- The methods of a class are made of what is placed on it. -/
theorem forall₂_madeAs {doc : Document} {b : Bucket} {x x' : Assembly} {ms : List Route}
    (h : Along (Makes doc) (entriesOf b) x ms x') :
    List.Forall₂ (MadeAs x') (b.routes.map (·.2)) ms := by
  have hall : List.Forall₂ (fun e => MadeAs x' e.placed) (entriesOf b) ms := by
    refine h.forall₂ (P := fun x e => MadeAs x e.placed) (fun e x m x' hmakes => ?_)
      fun e x m x' hmakes e' m' hmade => MadeAs.mono (p := e'.placed) (.cons hmakes (.nil x')) hmade
    refine ⟨operation_of_makes hmakes, ?_⟩
    rw [lookup_of_makes hmakes, if_pos rfl]
  rw [entriesOf, List.forall₂_map_left_iff] at hall
  rwa [List.forall₂_map_left_iff]

namespace HasParts

theorem forall₂_managers (h : HasParts l d s c tagged x final) :
    List.Forall₂ (fun b g => g.name = b.name ∧
      List.Forall₂ (MadeAs final) (b.routes.map (·.2)) g.routes) (c.ofKind .manager)
      l.managers := by
  have hx : List.Forall₂ (fun b g => g.name = b.name ∧
      List.Forall₂ (MadeAs x) (b.routes.map (·.2)) g.routes) (c.ofKind .manager) l.managers := by
    refine h.managers.forall₂ (P := fun x b g => g.name = b.name ∧
      List.Forall₂ (MadeAs x) (b.routes.map (·.2)) g.routes) (fun b x g x' hmakes => ?_)
      fun b x g x' hmakes b' g' hmade => ?_
    · exact ⟨hmakes.name, forall₂_madeAs hmakes.along⟩
    · exact ⟨hmade.1, hmade.2.imp fun p m hm => hm.mono hmakes.along⟩
  obtain ⟨ms, hsteps⟩ := h.steps_methods
  exact hx.imp fun b g hg => ⟨hg.1, hg.2.imp fun p m hm => hm.mono hsteps⟩

theorem forall₂_tagged (h : HasParts l d s c tagged x final) :
    List.Forall₂ (fun b t => t.1 = b ∧
      List.Forall₂ (MadeAs final) (b.routes.map (·.2)) t.2.1) (c.ofKind .resource) tagged := by
  refine h.methods.forall₂ (P := fun x b t => t.1 = b ∧
    List.Forall₂ (MadeAs x) (b.routes.map (·.2)) t.2.1) (fun b x t x' hmakes => ?_)
    fun b x t x' hmakes b' t' hmade => ?_
  · exact ⟨hmakes.1, forall₂_madeAs hmakes.along⟩
  · exact ⟨hmade.1, hmade.2.imp fun p m hm => hm.mono hmakes.along⟩

/-- The methods of a class are made of the last operations of their identifiers. -/
theorem forall₂_of_hasClass {operations : List Operation} {ps : List PlacedOperation}
    (h : HasParts l d s c tagged x final) (hr : c.Reflects d.document operations ps)
    {kind : ClassKind} {name : String} {routes : List Route} (hc : l.HasClass kind name routes) :
    List.Forall₂ (MadeAs final)
      ((Bucket.routesOf (ps.filter (·.operation.isOn kind name))).map (·.2)) routes := by
  cases hc with
  | @manager g hg =>
      obtain ⟨b, hb, hname, hmade⟩ := exists_left_of_forall₂ h.forall₂_managers hg
      obtain ⟨name, -, rfl⟩ := hr.mem_ofKind_iff.1 hb
      obtain rfl : g.name = name := hname.trans (Bucket.name_ofPlaced _ _ _)
      rwa [Bucket.routes_ofPlaced] at hmade
  | @resource r hc =>
      rw [h.routes r hc]
      cases hfind : tagged.find? (·.1.name = r.name) with
      | some t =>
          obtain ⟨b, hb, rfl, hmade⟩ :=
            exists_left_of_forall₂ h.forall₂_tagged (List.mem_of_find?_eq_some hfind)
          have hname : t.1.name = r.name := by simpa using List.find?_some hfind
          obtain ⟨name, -, heq⟩ := hr.mem_ofKind_iff.1 hb
          rw [heq] at hmade hname
          obtain rfl : name = r.name := (Bucket.name_ofPlaced _ _ _).symm.trans hname
          rwa [Bucket.routes_ofPlaced] at hmade
      | none =>
          -- No class of the name is tagged, so nothing has been placed on it.
          have hnone : ps.filter (·.operation.isOn .resource r.name) = [] := by
            rw [List.filter_eq_nil_iff]
            intro p hp hon
            have hb := hr.mem_ofKind_iff.2 ⟨r.name, ⟨p, hp, hon⟩, rfl⟩
            obtain ⟨t, ht, heq, -⟩ := exists_right_of_forall₂ h.forall₂_tagged hb
            have hname : t.1.name = r.name := by rw [heq, Bucket.name_ofPlaced]
            exact List.find?_eq_none.1 hfind t ht (by simpa using hname)
          rw [hnone]
          exact .nil

theorem names_resources (h : HasParts l d s c tagged x final) :
    l.resources.map (·.name) = final.2.registry.names := by
  have hfst := congrArg (List.map Prod.fst) h.resources
  rwa [List.map_map, List.map_map] at hfst

/-- What a method is made of is the last operation of its identifier. -/
theorem exists_lastOn {ps : List PlacedOperation} {operations : List Operation}
    (h : HasParts l d s c tagged x final) (hr : c.Reflects d.document operations ps)
    (hps : ps.map (fun p => (p.operation, p.position)) = operations.zipIdx) {kind : ClassKind}
    {name : String} {routes : List Route} (hc : l.HasClass kind name routes) {m : Route}
    (hm : m ∈ routes) :
    ∃ p, lastOn? operations kind name m.id = some (p.operation, p.position) ∧ MadeAs final p m := by
  obtain ⟨p, hp, hmade⟩ := exists_left_of_forall₂ (h.forall₂_of_hasClass hr hc) hm
  obtain ⟨q, hq, rfl⟩ := List.mem_map.1 hp
  obtain ⟨hlast, hid⟩ := Bucket.last?_of_mem_routesOf hq
  refine ⟨q.2, ?_, hmade⟩
  have hmid : m.id = q.1 := (congrArg (·.operationId) hmade.1).trans hid
  rw [lastOn?_eq hps, hmid, hlast]
  rfl

/-- A class has a method for each identifier of its operations. -/
theorem ids_of_hasClass {ps : List PlacedOperation} {operations : List Operation}
    (h : HasParts l d s c tagged x final) (hr : c.Reflects d.document operations ps)
    (hps : ps.map (fun p => (p.operation, p.position)) = operations.zipIdx) {kind : ClassKind}
    {name : String} {routes : List Route} (hc : l.HasClass kind name routes) :
    routes.map (·.id) =
      ((operationsOn operations kind name).map (·.1.operationId)).eraseDups := by
  have hids : routes.map (·.id) = ((Bucket.routesOf
      (ps.filter (·.operation.isOn kind name))).map (·.2)).map (·.id) :=
    map_eq_of_forall₂ (fun p m hm => congrArg (·.operationId) hm.1) (h.forall₂_of_hasClass hr hc)
  have hkeys : ((Bucket.routesOf (ps.filter (·.operation.isOn kind name))).map (·.2)).map
      (·.id) = (Bucket.routesOf (ps.filter (·.operation.isOn kind name))).map (·.1) := by
    rw [List.map_map]
    exact List.map_congr_left fun q hq => (Bucket.last?_of_mem_routesOf hq).2
  rw [hids, hkeys, Bucket.keys_routesOf, operationsOn_eq hps, List.map_map]
  rfl

theorem followsTags {ps : List PlacedOperation} {operations : List Operation}
    (h : HasParts l d s c tagged x final) (hwrites : ({} : Build).Writes c.build)
    (hr : c.Reflects d.document operations ps)
    (hps : ps.map (fun p => (p.operation, p.position)) = operations.zipIdx) :
    l.FollowsTags operations := by
  have hmanagers : l.managers.map (·.name) = (c.ofKind .manager).map (·.name) :=
    map_eq_of_forall₂ (fun b g hg => hg.1) h.forall₂_managers
  constructor
  case nodup_managers =>
    rw [hmanagers]
    exact hr.nodup_names .manager
  case mem_managers_iff =>
    intro name
    rw [hmanagers, ← exists_placed_iff hps, List.mem_map]
    constructor
    · rintro ⟨b, hb, rfl⟩
      obtain ⟨name, hplaced, rfl⟩ := hr.mem_ofKind_iff.1 hb
      rwa [Bucket.name_ofPlaced]
    · intro hplaced
      exact ⟨_, hr.mem_ofKind_iff.2 ⟨name, hplaced, rfl⟩, Bucket.name_ofPlaced _ _ _⟩
  case nodup_resources =>
    rw [h.names_resources]
    exact (trans_of Build.Writes hwrites h.writes).isProper.names
  case mem_resources =>
    intro name hname
    have hplaced := Classification.mem_placesOf.2 ((exists_placed_iff hps _ _).2 hname)
    have hreg := h.writes.of_spans (R := Build.Grows)
    rw [h.names_resources, ← Registry.contains_iff_mem_names]
    exact hreg.registry.contains (hr.holds.registered name hplaced)
  case ids => exact fun hc => h.ids_of_hasClass hr hps hc
  case last =>
    intro kind name routes hc m hm
    obtain ⟨p, hp, hmade⟩ := h.exists_lastOn hr hps hc hm
    exact ⟨p.position, by rw [hp, hmade.1]⟩
  case shared =>
    intro kind kind' name name' routes routes' m m' hc hm hc' hm' hoperation
    obtain ⟨p, hp, hmade, hfound⟩ := h.exists_lastOn hr hps hc hm
    obtain ⟨p', hp', hmade', hfound'⟩ := h.exists_lastOn hr hps hc' hm'
    rw [← hmade, hoperation] at hp
    rw [← hmade'] at hp'
    have hposition : p.position = p'.position := position_eq_of_lastOn? hp hp'
    rw [hposition, hfound'] at hfound
    exact (Option.some.inj hfound).symm

end HasParts

theorem followsTags_of_ok {d : Description} {s : Settings} {l : Library}
    (h : (ofDescription d s).1 = .ok l) : l.FollowsTags d.operations := by
  obtain ⟨hclassified, tagged, x, final, hparts⟩ := exists_hasParts h
  obtain ⟨ps, hreflects, hps⟩ := Classification.exists_reflects hclassified
  exact hparts.followsTags (Classification.writes_of_yields_addOperations hclassified) hreflects hps

/-- The tags of its operations say which classes and methods a library has, and it warns of each
schema without a class and of each operation that takes the place of another one. -/
theorem followsTags_of_ofDescription {d : Description} {s : Settings} {l : Library}
    (h : (ofDescription d s).1 = .ok l) :
    l.FollowsTags d.operations ∧ ∃ ps : List PlacedOperation,
      ps.map (fun p => (p.operation, p.position)) = d.operations.zipIdx ∧
      (∀ p ∈ ps, (∃ b b', Yields (p.operation.analyze d.document) b p.responses b') ∧
        ∀ report ∈ p.responses.unsupported, ∃ status mediaType,
          report = Response.inlineReport p.operation.label status mediaType) ∧
      l.warnings = ps.flatMap fun p => p.responses.unsupported ++
        Classification.replacements (d.operations.take p.position) p.operation := by
  obtain ⟨hclassified, tagged, x, final, hparts⟩ := exists_hasParts h
  obtain ⟨ps, hreflects, hps⟩ := Classification.exists_reflects hclassified
  have hwrites : ({} : Build).Writes (classified d s).build :=
    Classification.writes_of_yields_addOperations hclassified
  refine ⟨hparts.followsTags hwrites hreflects hps, ps, hps, fun p hp => ?_, ?_⟩
  · obtain ⟨b, b', hanalyze, -⟩ := hreflects.analyzed p hp
    exact ⟨⟨b, b', hanalyze⟩, fun report hr => Operation.exists_of_mem_unsupported hanalyze hr⟩
  · rw [hparts.warnings, hreflects.warnings]

/-- Two operations of one identifier on one manager; the first of them is on a resource as well,
under a name that differs in case. -/
def petTags : Document := .ofValue <| .map 0 [
  (.str "openapi", .str "3.0.0"),
  (.str "info", .map 1 [(.str "title", .str "Pets"), (.str "version", .str "1")]),
  (.str "paths", .map 2 [(.str "/pets", .map 3 [
    (.str "get", .map 4 [
      (.str "operationId", .str "listPets"),
      (.str "tags", .seq [.str "Manager:pet", .str "Resource:Pet", .str "public"]),
      (.str "responses", .map 5 [(.str "200", .map 6 [(.str "description", .str "Pets"),
        (.str "content", .map 7 [(.str "application/json", .map 8 [
          (.str "schema", Schema.referenceTo (.str "#/components/schemas/Pet"))])])])])]),
    (.str "post", .map 9 [
      (.str "operationId", .str "listPets"),
      (.str "tags", .seq [.str "Manager:Pet"]),
      (.str "responses", .map 10 [(.str "201", .map 11 [(.str "description", .str "Created")])])]),
    (.str "delete", .map 12 [
      (.str "operationId", .str "deletePets"),
      (.str "tags", .seq [.str "Manager:Pet", .str "Manager:pet"]),
      (.str "responses", .map 13 [(.str "204", .map 14 [(.str "description", .str "Gone")])])])])]),
  (.str "components", .map 15 [(.str "schemas", .map 16 [
    (.str "Pet", .map 17 [(.str "type", .str "object"), (.str "properties", .map 18 [
      (.str "name", .map 19 [(.str "type", .str "string")])])])])])]

/-- The classes of a library, each as tags spell it, with the labels of its operations. -/
def outline (l : Library) : List (String × List String) :=
  l.managers.map (fun c => ("Manager:" ++ c.name, c.routes.map (·.operation.label))) ++
    l.resources.map (fun c => ("Resource:" ++ c.name, c.routes.map (·.operation.label)))

theorem outline_petTags : ofFirstMethod petTags (fun l _ => (outline l, l.warnings)) =
    some (.manager, "Pet",
      [("Manager:Pet", ["POST /pets", "DELETE /pets"]), ("Resource:Pet", ["GET /pets"])],
      ["operationId 'listPets' is used twice on Manager 'Pet'; POST /pets replaces the earlier " ++
        "operation"]) := by
  decide +kernel

/-- The library for pets follows their tags: of the two operations of one identifier the manager
has the later one, with a warning, and the resource has the earlier one. -/
theorem followsTags_petTags : ∃ d l, Description.ofDocument petTags "3.0.0" = .ok d ∧
    (ofDescription d {}).1 = .ok l ∧ l.FollowsTags d.operations ∧
    outline l = [("Manager:Pet", ["POST /pets", "DELETE /pets"]), ("Resource:Pet", ["GET /pets"])] ∧
    l.warnings.length = 1 := by
  obtain ⟨d, l, m, hd, hl, -, heq⟩ := exists_of_ofFirstMethod outline_petTags
  obtain ⟨houtline, hwarnings⟩ := Prod.mk.inj heq
  exact ⟨d, l, hd, hl, (followsTags_of_ofDescription hl).1, houtline, by rw [hwarnings]; rfl⟩

end Library

end OpenApiClient
