import OpenApiClient.Proofs.Agreement
import OpenApiClient.Proofs.Assembly
import OpenApiClient.Proofs.Placement

/-!
# Which expressions are final

The responses of an operation get their expressions when the first method is made of it, from
the registry as it stands then, and keep them.  The fields of later bodies may still bring in
properties.  So the expressions of a method are those of the finished library exactly if the
registry at that time agrees with the library on every type that they build.
-/

namespace OpenApiClient

open Walk

namespace Responses

theorem exists_of_mem_complete {rs : Responses} {registry : Registry} {r : Response}
    (hr : r ∈ (rs.complete registry).both) : ∃ r₀ ∈ rs.both, r₀.complete registry = r := by
  rcases List.mem_append.1 hr with hr | hr
  · obtain ⟨r₀, h₀, rfl⟩ := Option.map_eq_some_iff.1 (Option.mem_toList.1 hr)
    exact ⟨r₀, List.mem_append_left _ (Option.mem_toList.2 h₀), rfl⟩
  · obtain ⟨r₀, h₀, rfl⟩ := Option.map_eq_some_iff.1 (Option.mem_toList.1 hr)
    exact ⟨r₀, List.mem_append_right _ (Option.mem_toList.2 h₀), rfl⟩

/-- Open responses are completed with the expressions that the registry gives. -/
theorem expression_of_mem_complete {rs : Responses} (hopen : rs.IsOpen) {registry : Registry}
    {r : Response} (hr : r ∈ (rs.complete registry).both) :
    r.expression = r.namedType?.map (Expression.ofResponse registry · r.isArray) := by
  obtain ⟨r₀, h₀, rfl⟩ := exists_of_mem_complete hr
  have hnone : r₀.expression = none := hopen r₀ h₀
  unfold Response.complete
  cases htype : r₀.namedType? with
  | none => simp [hnone, htype]
  | some type =>
      rw [hnone]
      have htype' : Response.namedType? { r₀ with
          expression := some (.ofResponse registry type r₀.isArray) } = some type := htype
      dsimp only
      rw [htype']
      rfl

end Responses

namespace Route

/-- The expressions of a method, for its two responses. -/
def expressions (m : Route) : List Expression := m.responses.both.filterMap (·.expression)

/-- The objects that the expressions of a method build, with their arguments. -/
def constructs (m : Route) : List (String × List Expression) :=
  m.expressions.flatMap (·.constructs)

/-- The expressions of a method are those that a registry gives. -/
def IsBuiltBy (m : Route) (r : Registry) : Prop :=
  ∀ response ∈ m.responses.both, response.expression =
    response.namedType?.map (Expression.ofResponse r · response.isArray)

/-- Every object that the expressions of a method build has as many arguments as its type has
properties. -/
def Fits (m : Route) (r : Registry) : Prop :=
  ∀ c ∈ m.constructs, c.2.length = (r.propertiesOf c.1).length

theorem mem_constructs {m : Route} {c : String × List Expression} :
    c ∈ m.constructs ↔ ∃ response ∈ m.responses.both, ∃ e, response.expression = some e ∧
      c ∈ e.constructs := by
  simp only [constructs, expressions, List.mem_flatMap, List.mem_filterMap]
  constructor
  · rintro ⟨e, ⟨response, hresponse, he⟩, hc⟩
    exact ⟨response, hresponse, e, he, hc⟩
  · rintro ⟨response, hresponse, e, he, hc⟩
    exact ⟨e, ⟨response, hresponse, he⟩, hc⟩

variable {m : Route} {r r' : Registry}

/-- The arguments of an object are those for the properties of its type. -/
theorem IsBuiltBy.exists_arguments (h : m.IsBuiltBy r) {target : String}
    {arguments : List Expression} (hc : (target, arguments) ∈ m.constructs) :
    ∃ (outer : List String) (source : Binding) (prior : List String),
      arguments = (r.propertiesOf target).map fun p =>
        Expression.ofProperty r outer p source (prior ++ [p.name]) := by
  obtain ⟨response, hresponse, e, he, hc⟩ := mem_constructs.1 hc
  obtain ⟨type, -, rfl⟩ := Option.map_eq_some_iff.1 ((h response hresponse).symm.trans he)
  exact Expression.exists_arguments_of_mem_constructs_ofResponse hc

theorem IsBuiltBy.fits (h : m.IsBuiltBy r) : m.Fits r := by
  intro ⟨target, arguments⟩ hc
  obtain ⟨outer, source, prior, rfl⟩ := h.exists_arguments hc
  exact List.length_map _

/-- The expressions that one registry gives fit another one exactly if what they build has the
same properties in both. -/
theorem IsBuiltBy.fits_iff (h : m.IsBuiltBy r)
    (hmore : ∀ name, r.propertiesOf name <+: r'.propertiesOf name) :
    m.Fits r' ↔ ∀ c ∈ m.constructs, r.propertiesOf c.1 = r'.propertiesOf c.1 := by
  constructor
  · intro hfits c hc
    exact (hmore c.1).eq_of_length ((h.fits c hc).symm.trans (hfits c hc))
  · intro heq c hc
    rw [← heq c hc]
    exact h.fits c hc

/-- The expressions that one registry gives are those that another one gives exactly if the two
agree on what they build. -/
theorem IsBuiltBy.isBuiltBy_iff (h : m.IsBuiltBy r)
    (hmore : ∀ name, r.propertiesOf name <+: r'.propertiesOf name) :
    m.IsBuiltBy r' ↔ ∀ c ∈ m.constructs, r.AgreesOn r' c.1 := by
  have hresponse : ∀ response ∈ m.responses.both, ∀ type, response.namedType? = some type →
      response.expression = some (Expression.ofResponse r type response.isArray) := by
    intro response hmem type htype
    rw [h response hmem, htype]
    rfl
  constructor
  · intro h' c hc
    obtain ⟨response, hmem, e, he, hc⟩ := mem_constructs.1 hc
    obtain ⟨type, htype, rfl⟩ := Option.map_eq_some_iff.1 ((h response hmem).symm.trans he)
    have heq := (hresponse response hmem type htype).symm.trans (h' response hmem)
    rw [htype, Option.map_some, Option.some.injEq] at heq
    exact (Expression.ofResponse_eq_iff hmore type response.isArray).1 heq c hc
  · intro hagree response hmem
    cases htype : response.namedType? with
    | none => rw [h response hmem, htype, Option.map_none, Option.map_none]
    | some type =>
        have he := hresponse response hmem type htype
        rw [he, Option.map_some, Option.some.injEq]
        refine (Expression.ofResponse_eq_iff hmore type response.isArray).2 fun c hc => ?_
        exact hagree c (mem_constructs.2 ⟨response, hmem, _, he, hc⟩)

end Route

namespace Library

variable {doc : Document} {e : Entry} {es done : List Entry} {m : Route} {rs : Responses}
  {x x' y : Assembly}

/-- The entities that the resources of a library are made of. -/
def registry (l : Library) : Registry :=
  ⟨l.resources.map fun c => { name := c.name, properties := c.properties }⟩

namespace MadeOf

variable {d : Description} {s : Settings} {l : Library} {final : Assembly}

/-- The library has the entities of the last state, with their properties. -/
theorem map_get? (h : MadeOf l d s final) (name : String) :
    (l.registry.get? name).map (·.properties) =
      (final.2.registry.get? name).map (·.properties) := by
  have hfind (r : Registry) : (r.get? name).map (·.properties) =
      ((r.entities.map fun e => (e.name, e.properties)).find? (·.1 == name)).map (·.2) := by
    unfold Registry.get?
    rw [List.find?_map, Option.map_map]
    rfl
  rw [hfind, hfind, ← h.resources]
  unfold registry
  rw [List.map_map]
  rfl

theorem propertiesOf (h : MadeOf l d s final) (name : String) :
    l.registry.propertiesOf name = final.2.registry.propertiesOf name :=
  congrArg (·.getD []) (h.map_get? name)

/-- What has been built on the way has no properties that the library has not. -/
theorem propertiesOf_of_grows (h : MadeOf l d s final) {b : Build} (hg : b.Grows final.2)
    (name : String) : b.registry.propertiesOf name <+: l.registry.propertiesOf name := by
  rw [h.propertiesOf]
  exact hg.registry.propertiesOf name

theorem contains (h : MadeOf l d s final) (name : String) :
    l.registry.contains name = final.2.registry.contains name := by
  have hsome := congrArg Option.isSome (h.map_get? name)
  rwa [Option.isSome_map, Option.isSome_map] at hsome

end MadeOf

/-- The responses of the operation at a position got their expressions at the state `y`, when the
first method was made of it. -/
def CompletedAt (doc : Document) (es : List Entry) (start : Assembly) (position : Nat)
    (rs : Responses) (y : Assembly) : Prop :=
  ∃ done, ∃ first : Entry, ∃ rest, es = done ++ first :: rest ∧ Steps doc done start y ∧
    first.placed.position = position ∧ (∀ e ∈ done, e.placed.position ≠ position) ∧
    rs = first.placed.responses.complete y.2.registry

theorem CompletedAt.append {start : Assembly} {position : Nat}
    (h : CompletedAt doc es start position rs y) (es' : List Entry) :
    CompletedAt doc (es ++ es') start position rs y := by
  obtain ⟨done, first, rest, rfl, hrest⟩ := h
  exact ⟨done, first, rest ++ es', by simp, hrest⟩

/-- The responses that have their expressions are those of the operations that methods have been
made of. -/
structure Memoized (doc : Document) (done : List Entry) (start x : Assembly) : Prop where
  missing (position : Nat) : x.1.lookup position = none →
    ∀ e ∈ done, e.placed.position ≠ position
  found (position : Nat) (rs : Responses) : x.1.lookup position = some rs →
    ∃ y, CompletedAt doc done start position rs y ∧ y.2.Grows x.2

theorem memoized_start {start : Assembly} (h : start.1 = []) : Memoized doc [] start start := by
  constructor
  · intro position _ e he
    cases he
  · intro position rs hfound
    rw [h] at hfound
    cases hfound

/-- A method has the expressions that the registry gave when the first method was made of its
operation. -/
theorem Memoized.exists_completedAt {start : Assembly} (h : Memoized doc done start x)
    (hsteps : Steps doc done start x) (hmakes : Makes doc e x m x') :
    ∃ y, CompletedAt doc (done ++ [e]) start e.placed.position m.responses y ∧
      y.2.Grows x'.2 := by
  obtain ⟨x₁, b, hcompleted, -⟩ := exists_of_makes hmakes
  have hgrows : x.2.Grows x'.2 := grows_of_makes hmakes
  obtain ⟨hfound, -⟩ | ⟨hmissing, hresponses, -⟩ := produces_completed hcompleted
  · obtain ⟨y, hy, hg⟩ := h.found _ _ hfound
    exact ⟨y, hy.append [e], trans_of Build.Grows hg hgrows⟩
  · exact ⟨x, ⟨done, e, [], rfl, hsteps, rfl, h.missing _ hmissing, hresponses⟩, hgrows⟩

theorem Memoized.of_makes {start : Assembly} (h : Memoized doc done start x)
    (hsteps : Steps doc done start x) (hmakes : Makes doc e x m x') :
    Memoized doc (done ++ [e]) start x' := by
  obtain ⟨y, hy, hg⟩ := h.exists_completedAt hsteps hmakes
  have hgrows : x.2.Grows x'.2 := grows_of_makes hmakes
  constructor
  · intro position hmissing e' he'
    rw [lookup_of_makes hmakes] at hmissing
    split at hmissing
    · cases hmissing
    · next hne =>
        rcases List.mem_append.1 he' with he' | he'
        · exact h.missing position hmissing e' he'
        · obtain rfl := List.mem_singleton.1 he'
          exact Ne.symm hne
  · intro position rs hfound
    rw [lookup_of_makes hmakes] at hfound
    split at hfound
    · next heq =>
        obtain rfl := Option.some.inj hfound
        exact ⟨y, heq ▸ hy, hg⟩
    · obtain ⟨y', hy', hg'⟩ := h.found position rs hfound
      exact ⟨y', hy'.append [e], trans_of Build.Grows hg' hgrows⟩

theorem memoized_of_steps {start : Assembly} (hstart : start.1 = [])
    (h : Steps doc es start x) : Memoized doc es start x := by
  obtain ⟨ms, h⟩ := h
  have hboth : Steps doc es start x ∧ Memoized doc es start x := by
    refine h.invariant (I := fun done x => Steps doc done start x ∧ Memoized doc done start x)
      ⟨Steps.nil start, memoized_start hstart⟩ fun done e x m x' _ hI hmakes => ?_
    exact ⟨hI.1.append ⟨[m], .cons hmakes (.nil x')⟩, hI.2.of_makes hI.1 hmakes⟩
  exact hboth.2

/-- The operations of a class have open responses. -/
theorem isOpen_of_mem_agenda {d : Description} {s : Settings}
    (h : e ∈ agenda (classified d s)) : e.placed.responses.IsOpen := by
  obtain ⟨b, hb, he⟩ := List.mem_flatMap.1 h
  obtain ⟨q, hq, rfl⟩ := List.mem_map.1 he
  have hb' : b ∈ (classified d s).buckets := by
    rcases List.mem_append.1 hb with hb | hb <;> exact (List.mem_filter.1 hb).1
  exact Classification.isOpen_ofOperations d.document s.strictOperationIds d.operations b hb' q hq

theorem CompletedAt.isBuiltBy {d : Description} {s : Settings} {start : Assembly}
    {position : Nat} (h : CompletedAt doc (agenda (classified d s)) start position m.responses y) :
    m.IsBuiltBy y.2.registry := by
  obtain ⟨done, first, rest, hes, -, -, -, hresponses⟩ := h
  have hfirst : first ∈ agenda (classified d s) := by
    rw [hes]
    simp
  intro response hmem
  rw [hresponses] at hmem
  exact Responses.expression_of_mem_complete (isOpen_of_mem_agenda hfirst) hmem

/-- The responses of a method of a library were completed at some state on the way. -/
theorem MadeAmong.exists_completedAt {d : Description} {s : Settings} {final : Assembly}
    (h : MadeAmong d.document (agenda (classified d s)) (start d s) e x m x' final) :
    ∃ y, CompletedAt d.document (agenda (classified d s)) (start d s) e.placed.position
      m.responses y ∧ y.2.Grows final.2 := by
  obtain ⟨done, rest, hes, hdone, hmakes, hrest⟩ := h
  obtain ⟨y, hy, hg⟩ := (memoized_of_steps rfl hdone).exists_completedAt hdone hmakes
  refine ⟨y, ?_, trans_of Build.Grows hg hrest.grows⟩
  rw [hes, List.append_cons]
  exact hy.append rest

/-- If the methods bring in no entity and no property beyond those that the classification has
made, all expressions are those of the finished library. -/
theorem isBuiltBy_registry_of_classified {d : Description} {s : Settings} {l : Library}
    (h : (ofDescription d s).1 = .ok l)
    (hnames : ∀ name, l.registry.contains name = true →
      (classified d s).build.registry.contains name = true)
    (hproperties : ∀ name, (classified d s).build.registry.propertiesOf name =
      l.registry.propertiesOf name)
    {kind : ClassKind} {className : String} {m : Route} (hm : HasMethod l kind className m) :
    m.IsBuiltBy l.registry := by
  obtain ⟨final, hmade⟩ := exists_madeOf h
  obtain ⟨e, x, x', -, -, hamong⟩ := hmade.method hm
  obtain ⟨y, hat, hfinal⟩ := hamong.exists_completedAt
  have hstart : (classified d s).build.Grows y.2 := by
    obtain ⟨done, first, rest, -, hdone, -⟩ := id hat
    exact hdone.grows
  have hmore := hmade.propertiesOf_of_grows hfinal
  -- The state at which the responses were completed lies between two that are the same.
  have heq : ∀ name, y.2.registry.propertiesOf name = l.registry.propertiesOf name := by
    intro name
    refine (hmore name).eq_of_length_le ?_
    rw [← hproperties name]
    exact (hstart.registry.propertiesOf name).length_le
  have hcontains : y.2.registry.contains = l.registry.contains := by
    funext name
    rw [Bool.eq_iff_iff, hmade.contains]
    constructor
    · exact hfinal.registry.contains
    · intro hname
      rw [← hmade.contains] at hname
      exact hstart.registry.contains (hnames name hname)
  refine (hat.isBuiltBy.isBuiltBy_iff hmore).2 fun c _ => ?_
  refine ⟨heq c.1, fun p _ => ?_⟩
  unfold Registry.shape
  rw [hcontains]

/-- The expressions of a method are given by the registry as it stood when the first method was
made of its operation.  They are those of the finished library exactly if the two agree on what
is built, and their objects have as many arguments as the library has properties exactly if
these are the same in both. -/
theorem isBuiltBy_registry_iff {d : Description} {s : Settings} {l : Library}
    (h : (ofDescription d s).1 = .ok l) {kind : ClassKind} {className : String} {m : Route}
    (hm : HasMethod l kind className m) :
    ∃ e x x' final y, MadeOf l d s final ∧ e.kind = kind ∧ e.className = className ∧
      MadeAmong d.document (agenda (classified d s)) (start d s) e x m x' final ∧
      CompletedAt d.document (agenda (classified d s)) (start d s) e.placed.position
        m.responses y ∧
      m.IsBuiltBy y.2.registry ∧
      (m.IsBuiltBy l.registry ↔ ∀ c ∈ m.constructs, y.2.registry.AgreesOn l.registry c.1) ∧
      (m.Fits l.registry ↔ ∀ c ∈ m.constructs,
        y.2.registry.propertiesOf c.1 = l.registry.propertiesOf c.1) := by
  obtain ⟨final, hmade⟩ := exists_madeOf h
  obtain ⟨e, x, x', rfl, rfl, hamong⟩ := hmade.method hm
  obtain ⟨y, hat, hg⟩ := hamong.exists_completedAt
  have hbuilt : m.IsBuiltBy y.2.registry := hat.isBuiltBy
  have hmore := hmade.propertiesOf_of_grows hg
  exact ⟨e, x, x', final, y, hmade, rfl, rfl, hamong, hat, hbuilt, hbuilt.isBuiltBy_iff hmore,
    hbuilt.fits_iff hmore⟩

/-- Two schemas of one entity: a response names the first, and a later body the second. -/
def petSchemas : Document := .ofValue <| .map 0 [
  (.str "openapi", .str "3.0.0"),
  (.str "info", .map 1 [(.str "title", .str "Pets"), (.str "version", .str "1")]),
  (.str "paths", .map 2 [(.str "/pets", .map 3 [
    (.str "get", .map 4 [
      (.str "operationId", .str "getPet"),
      (.str "tags", .seq [.str "Manager:Pet"]),
      (.str "responses", .map 5 [(.str "200", .map 6 [(.str "description", .str "A pet"),
        (.str "content", .map 7 [(.str "application/json", .map 8 [
          (.str "schema", Schema.referenceTo (.str "#/components/schemas/pet"))])])])])]),
    (.str "post", .map 9 [
      (.str "operationId", .str "addPet"),
      (.str "tags", .seq [.str "Manager:Pet"]),
      (.str "requestBody", .map 10 [(.str "content", .map 11 [(.str "application/json", .map 12 [
        (.str "schema", .map 13 [(.str "type", .str "object"), (.str "properties", .map 14 [
          (.str "pet", Schema.referenceTo (.str "#/components/schemas/Pet"))])])])])]),
      (.str "responses", .map 15 [
        (.str "201", .map 16 [(.str "description", .str "Created")])])])])]),
  (.str "components", .map 17 [(.str "schemas", .map 18 [
    (.str "pet", .map 19 [(.str "type", .str "object"), (.str "properties", .map 20 [
      (.str "name", .map 21 [(.str "type", .str "string")])])]),
    (.str "Pet", .map 22 [(.str "type", .str "object"), (.str "properties", .map 23 [
      (.str "age", .map 24 [(.str "type", .str "integer")])])])])])]

/-- The objects that a method builds: how many arguments they have, and how many properties their
types have in the library. -/
def arities (l : Library) (m : Route) : List (Nat × Nat) :=
  m.constructs.map fun c => (c.2.length, (l.registry.propertiesOf c.1).length)

theorem arities_petSchemas :
    ofFirstMethod petSchemas arities = some (.manager, "Pet", [(1, 2)]) := by
  decide +kernel

/-- The object for a pet has one argument, and a pet two properties. -/
theorem not_fits_petSchemas : ∃ d l m, Description.ofDocument petSchemas "3.0.0" = .ok d ∧
    (ofDescription d {}).1 = .ok l ∧ HasMethod l .manager "Pet" m ∧ ¬ m.Fits l.registry ∧
    ¬ m.IsBuiltBy l.registry := by
  obtain ⟨d, l, m, hd, hl, hm, harities⟩ := exists_of_ofFirstMethod arities_petSchemas
  have hnot : ¬ m.Fits l.registry := by
    intro hfits
    have hmem : (1, 2) ∈ arities l m := by
      rw [harities]
      exact List.mem_cons_self
    obtain ⟨c, hc, heq⟩ := List.mem_map.1 hmem
    obtain ⟨h₁, h₂⟩ := Prod.mk.inj heq
    have h := hfits c hc
    omega
  exact ⟨d, l, m, hd, hl, hm, hnot, fun hbuilt => hnot hbuilt.fits⟩

/-- The object for a pet fits exactly if the first of its schemas has all the properties that the
library gives a pet. -/
theorem isBuiltBy_registry_iff_petSchemas : ∃ d l m y,
    (ofDescription d {}).1 = .ok l ∧ HasMethod l .manager "Pet" m ∧ m.IsBuiltBy y ∧
    (m.IsBuiltBy l.registry ↔ ∀ c ∈ m.constructs, y.AgreesOn l.registry c.1) ∧
    (m.Fits l.registry ↔ ∀ c ∈ m.constructs,
      y.propertiesOf c.1 = l.registry.propertiesOf c.1) := by
  obtain ⟨d, l, m, -, hl, hm, -⟩ := exists_of_ofFirstMethod arities_petSchemas
  obtain ⟨e, x, x', final, y, -, -, -, -, -, hbuilt, hiff, hfits⟩ := isBuiltBy_registry_iff hl hm
  exact ⟨d, l, m, y.2.registry, hl, hm, hbuilt, hiff, hfits⟩

end Library

end OpenApiClient
