import OpenApiClient.Proofs.Finality
import OpenApiClient.Proofs.Linking
import OpenApiClient.Proofs.Provision
import OpenApiClient.Proofs.Tagging

/-!
# No name leads nowhere

The parts of a library name each other: methods name the types that they return, expressions the
types that they build, properties and the fields of bodies the entities that their schemas refer
to, and managers what they import.  All these names come from entities that are registered on the
way, and whatever has been registered is a resource in the end.
-/

namespace OpenApiClient

open Walk

namespace Expression

theorem mem_firstMet {names : List String} {name : String} :
    name ∈ firstMet names ↔ name ∈ names := by
  rw [firstMet, foldl_addNew, List.mem_eraseDups]

mutual

/-- The types that an expression builds or leaves null. -/
def typeNames : Expression → List String
  | .field _ => []
  | .construct target arguments => target :: typeNamesOfAll arguments
  | .arrayMap _ _ body => body.typeNames
  | .nullGuard _ body => body.typeNames
  | .null typeName => [typeName]

def typeNamesOfAll : List Expression → List String
  | [] => []
  | e :: rest => e.typeNames ++ typeNamesOfAll rest

end

theorem mem_typeNamesOfAll {es : List Expression} {name : String} :
    name ∈ typeNamesOfAll es ↔ ∃ e ∈ es, name ∈ e.typeNames := by
  induction es with
  | nil => simp [typeNamesOfAll]
  | cons e rest ih => simp [typeNamesOfAll, ih]

mutual

theorem targets_subset_typeNames : ∀ e : Expression, e.targets ⊆ e.typeNames
  | .field _ => List.Subset.refl _
  | .construct _ arguments => List.cons_subset_cons _ (targetsOfAll_subset_typeNames arguments)
  | .arrayMap _ _ body => targets_subset_typeNames body
  | .nullGuard _ body => targets_subset_typeNames body
  | .null _ => List.nil_subset _

theorem targetsOfAll_subset_typeNames :
    ∀ es : List Expression, targetsOfAll es ⊆ typeNamesOfAll es
  | [] => List.Subset.refl _
  | e :: rest => List.append_subset.2
      ⟨List.Subset.trans (targets_subset_typeNames e) (List.subset_append_left _ _),
        List.Subset.trans (targetsOfAll_subset_typeNames rest) (List.subset_append_right _ _)⟩

end

@[simp] theorem typeNames_unlessRequired (p : Property) (binding : Binding) (path : List String)
    (e : Expression) : (unlessRequired p binding path e).typeNames = e.typeNames := by
  unfold unlessRequired
  split <;> rfl

variable {r : Registry}

/-- An argument names the entity of its property, and nothing but what the expression for that
entity names. -/
theorem mem_typeNames_ofProperty {ancestry : List String} {p : Property} {binding : Binding}
    {path : List String} {name : String}
    (h : name ∈ (ofProperty r ancestry p binding path).typeNames) :
    ∃ inner, (r.shape p).type? = some inner ∧ (name = inner ∨ inner ∉ ancestry ∧
      ∃ binding path, name ∈ (ofType r ancestry inner binding path).typeNames) := by
  rw [ofProperty_eq] at h
  cases hs : r.shape p with
  | plain =>
      rw [hs] at h
      cases h
  | entity inner =>
      rw [hs] at h
      refine ⟨inner, rfl, ?_⟩
      dsimp only at h
      split at h
      · exact .inl (List.mem_singleton.1 h)
      · next hin =>
          rw [typeNames_unlessRequired] at h
          exact .inr ⟨by simpa using hin, binding, path, h⟩
  | entities inner =>
      rw [hs] at h
      refine ⟨inner, rfl, ?_⟩
      dsimp only at h
      split at h
      · exact .inl (List.mem_singleton.1 h)
      · next hin =>
          rw [typeNames_unlessRequired] at h
          exact .inr ⟨by simpa using hin, binding.inner, [], h⟩

/-- The expression for a type names nothing but that type and registered ones. -/
theorem mem_typeNames_ofType {ancestry : List String} {type : String} {binding : Binding}
    {path : List String} {name : String}
    (h : name ∈ (ofType r ancestry type binding path).typeNames) :
    name = type ∨ r.contains name = true := by
  induction ancestry, type using nested_induction (r := r) generalizing binding path with
  | h ancestry type ih =>
      -- A type that is being built further outside is left null.
      by_cases hnew : type ∈ ancestry
      · rw [ofType, dif_pos (by simpa using hnew)] at h
        exact .inl (List.mem_singleton.1 h)
      · rw [ofType_eq hnew, typeNames, List.mem_cons, mem_typeNamesOfAll] at h
        rcases h with rfl | ⟨e, he, h⟩
        · exact .inl rfl
        · obtain ⟨p, hp, rfl⟩ := List.mem_map.1 he
          obtain ⟨inner, hshape, hname⟩ := mem_typeNames_ofProperty h
          have hinner := Registry.contains_of_type?_shape hshape
          right
          rcases hname with rfl | ⟨hin, _, _, h⟩
          · exact hinner
          · rcases ih hnew p hp inner hshape hin h with rfl | hreg
            · exact hinner
            · exact hreg

theorem mem_typeNames_ofResponse {type : String} {isArray : Bool} {name : String}
    (h : name ∈ (ofResponse r type isArray).typeNames) :
    name = type ∨ r.contains name = true := by
  unfold ofResponse synthesize at h
  cases isArray <;> exact mem_typeNames_ofType h

end Expression

theorem Operation.contains_of_yields_analyze {doc : Document} {o : Operation} {b b' : Build}
    {rs : Responses} (h : Yields (o.analyze doc) b rs b') {r : Response} (hr : r ∈ rs.both)
    {type : String} (ht : r.typeName = some type) : b'.registry.contains type = true := by
  obtain ⟨read, hboth, -, hread⟩ := isRead_of_yields_analyze h
  rw [hboth] at hr
  obtain ⟨q, hq, rfl⟩ := List.mem_map.1 hr
  obtain ⟨b₁, b₂, hq, hg⟩ := hread q hq
  obtain ⟨pointer, hpointer⟩ := hq.type type ht
  exact hg.registry.contains (Building.contains_of_yields_ofPointer hpointer)

theorem Response.typeName_complete (registry : Registry) (r : Response) :
    (r.complete registry).typeName = r.typeName := by
  unfold complete
  split <;> rfl

theorem Response.typeName_of_namedType? {r : Response} {type : String}
    (h : r.namedType? = some type) : r.typeName = some type :=
  (Option.filter_eq_some_iff.1 h).1

namespace Route

theorem mem_expressions {m : Route} {e : Expression} :
    e ∈ m.expressions ↔ m.expression = some e ∨ m.defaultExpression = some e := by
  simp [expressions, Responses.both, expression, defaultExpression, Option.bind_eq_some_iff]

theorem exists_response_iff {m : Route} {type : String} :
    (∃ r ∈ m.responses.both, r.typeName = some type) ↔
      m.returnType = some type ∨ m.defaultReturnType = some type := by
  simp [Responses.both, returnType, defaultReturnType, Option.bind_eq_some_iff, or_and_right,
    exists_or]

end Route

namespace Classification.Reflects

variable {doc : Document} {operations : List Operation} {c : Classification}
  {ps : List PlacedOperation}

theorem contains (h : c.Reflects doc operations ps) {p : PlacedOperation} (hp : p ∈ ps)
    {r : Response} (hr : r ∈ p.responses.both) {type : String} (ht : r.typeName = some type) :
    c.build.registry.contains type = true := by
  obtain ⟨b, b', hanalyze, hg⟩ := h.analyzed p hp
  exact hg.registry.contains (Operation.contains_of_yields_analyze hanalyze hr ht)

theorem mem_of_mem_routes (h : c.Reflects doc operations ps) {kind : ClassKind} {b : Bucket}
    (hb : b ∈ c.ofKind kind) {q : String × PlacedOperation} (hq : q ∈ b.routes) : q.2 ∈ ps := by
  obtain ⟨name, -, rfl⟩ := h.mem_ofKind_iff.1 hb
  rw [Bucket.routes_ofPlaced] at hq
  obtain ⟨hlast, -⟩ := Bucket.last?_of_mem_routesOf hq
  exact (List.mem_filter.1 (List.mem_reverse.1 (List.mem_of_find?_eq_some hlast))).1

/-- A manager uses registered entities only. -/
theorem contains_of_mem_uses (h : c.Reflects doc operations ps) {b : Bucket}
    (hb : b ∈ c.ofKind .manager) {type : String} (htype : type ∈ b.uses) :
    c.build.registry.contains type = true := by
  obtain ⟨name, -, rfl⟩ := h.mem_ofKind_iff.1 hb
  obtain ⟨p, hp, hused⟩ := Bucket.exists_of_mem_uses_ofPlaced htype
  have hp := (List.mem_filter.1 hp).1
  unfold PlacedOperation.uses at hused
  rw [if_pos rfl] at hused
  rcases List.mem_append.1 hused with hused | hused
  · have hon := Operation.isOn_of_firstResource? (Option.mem_toList.1 hused)
    exact h.holds.registered type (mem_placesOf.2 ⟨p, hp, hon⟩)
  · obtain ⟨r, hr, ht⟩ := List.mem_filterMap.1 (Expression.mem_firstMet.1 hused)
    exact h.contains hp hr (Response.typeName_of_namedType? ht)

theorem placed_of_mem_agenda (h : c.Reflects doc operations ps) {e : Library.Entry}
    (he : e ∈ Library.agenda c) : e.placed ∈ ps := by
  obtain ⟨b, hb, he⟩ := List.mem_flatMap.1 he
  obtain ⟨q, hq, rfl⟩ := List.mem_map.1 he
  rcases List.mem_append.1 hb with hb | hb <;> exact h.mem_of_mem_routes hb hq

end Classification.Reflects

namespace Namespace

/-- Imported is what does not belong to the namespace, and nothing else. -/
theorem mem_imports_iff {own name : String} {names : List String} :
    name ∈ imports own names ↔ name ∈ names ∧ ofName name ≠ own := by
  induction names using List.reverseRecOn with
  | nil => simp [imports]
  | append_singleton names last ih =>
      rw [imports, List.foldl_append, List.foldl_cons, List.foldl_nil, ← imports, addImport,
        List.mem_append, List.mem_singleton]
      split
      · next hskip =>
          rw [ih]
          constructor
          · exact fun h => ⟨.inl h.1, h.2⟩
          · rintro ⟨h | rfl, hother⟩
            · exact ⟨h, hother⟩
            · exact ih.1 (by simpa [hother] using hskip)
      · next hnew =>
          have hother : ofName last ≠ own := fun h => hnew (by simp [h])
          rw [List.mem_append, List.mem_singleton, ih]
          constructor
          · rintro (h | rfl)
            · exact ⟨.inl h.1, h.2⟩
            · exact ⟨.inr rfl, hother⟩
          · rintro ⟨h | rfl, hname⟩
            · exact .inl ⟨h, hname⟩
            · exact .inr rfl

end Namespace

namespace Library

theorem mem_usesOf {base client : String} {kind : ClassKind} {entities : List String}
    {name : String} (h : name ∈ usesOf base client kind entities) :
    name = Namespace.qualify [base, client] ∨
      name = Namespace.qualify [base, Namespace.exceptions, Namespace.unexpectedResponse] ∨
      ∃ e ∈ entities, name = Namespace.qualify [base, Namespace.resources, e] := by
  have hnames := (Namespace.mem_imports_iff.1 h).1
  simp only [List.cons_append, List.mem_cons, List.mem_append, List.mem_map, List.not_mem_nil,
    or_false] at hnames
  rcases hnames with h | ⟨e, he, rfl⟩ | h
  · exact .inl h
  · exact .inr (.inr ⟨e, he, rfl⟩)
  · exact .inr (.inl h)

theorem contains_of_entityOf? {r : Registry} {type : Value} {name : String}
    (h : entityOf? r type = .ok (some name)) : r.contains name = true := by
  unfold entityOf? at h
  split at h
  · cases h
  · split at h
    · cases h
    · split at h
      · split at h
        · next hreg =>
            cases h
            exact (Bool.and_eq_true_iff.1 hreg).2
        · cases h
      · cases h

/-- A method builds the types of its expressions, and it accepts registered entities. -/
theorem mem_of_typesOf {r : Registry} {m : Route} {types : List String}
    (h : typesOf r m = .ok types) {type : String} (htype : type ∈ types) :
    (∃ e ∈ m.expressions, type ∈ e.typeNames) ∨ r.contains type = true := by
  obtain ⟨accepted, haccepted, hpure⟩ := bind_eq_ok.1 h
  obtain rfl := Except.ok.inj hpure
  rcases List.mem_append.1 htype with htype | htype
  · left
    obtain ⟨found, hfound, htype⟩ := List.mem_flatMap.1 htype
    cases found with
    | none => cases htype
    | some e =>
        refine ⟨e, Route.mem_expressions.2 ?_,
          e.targets_subset_typeNames (Expression.mem_firstMet.1 htype)⟩
        simpa [eq_comm] using hfound
  · right
    obtain ⟨ts, hts, htype⟩ := List.mem_flatten.1 htype
    obtain ⟨q, hq, hts⟩ := exists_of_mapM_eq_ok haccepted hts
    obtain ⟨t₁, h₁, hts⟩ := bind_eq_ok.1 hts
    obtain ⟨t₂, h₂, hts⟩ := bind_eq_ok.1 hts
    obtain rfl := Except.ok.inj hts
    obtain ⟨found, hfound, rfl⟩ := List.mem_filterMap.1 htype
    rcases List.mem_cons.1 hfound with heq | hfound
    · exact contains_of_entityOf? (heq ▸ h₁)
    · exact contains_of_entityOf? (List.mem_singleton.1 hfound ▸ h₂)

/-- What a class uses for its methods is named by an expression of one of them, or registered. -/
theorem mem_types_of_produces_routes {doc : Document} {b : Bucket} {ms : List Route}
    {types : List String} {x x' : Assembly} (h : Produces (routes doc b) x (ms, types) x')
    {type : String} (htype : type ∈ types) :
    (∃ m ∈ ms, ∃ e ∈ m.expressions, type ∈ e.typeNames) ∨
      x'.2.registry.contains type = true := by
  obtain ⟨made, rfl, rfl, hmade⟩ := exists_of_produces_routes h
  obtain ⟨t, ht, htype⟩ := List.mem_flatMap.1 (Expression.mem_firstMet.1 htype)
  obtain ⟨_, _, rest, _, bs, _, y, -, -, ⟨-, htypes⟩, hrest⟩ := hmade.exists_step ht
  rcases mem_of_typesOf htypes htype with hbuilt | hreg
  · exact .inl ⟨t.1, List.mem_map_of_mem ht, hbuilt⟩
  · have hsteps : Steps doc rest y x' := by
      refine ⟨bs.map (·.1), ?_⟩
      rw [← List.map_id rest]
      exact hrest.map fun _ _ _ _ hstep => hstep.1
    exact .inr (hsteps.grows.registry.contains hreg)

variable {d : Description} {s : Settings} {l : Library} {operations : List Operation}
  {ps : List PlacedOperation} {tagged : List (Bucket × List Route × List String)}
  {x final : Assembly}

/-- The responses of a method were completed when their types were registered. -/
theorem MadeAmong.exists_isBuiltBy {e : Entry} {x x' : Assembly} {m : Route}
    (h : MadeAmong d.document (agenda (classified d s)) (start d s) e x m x' final)
    (hr : (classified d s).Reflects d.document operations ps) :
    ∃ b : Build, m.IsBuiltBy b.registry ∧ b.Grows final.2 ∧
      ∀ r ∈ m.responses.both, ∀ type, r.typeName = some type →
        b.registry.contains type = true := by
  obtain ⟨y, hat, hg⟩ := h.exists_completedAt
  refine ⟨y.2, hat.isBuiltBy, hg, fun r hmem type ht => ?_⟩
  obtain ⟨done, first, rest, hes, hsteps, -, -, hresponses⟩ := hat
  rw [hresponses] at hmem
  obtain ⟨r₀, h₀, rfl⟩ := Responses.exists_of_mem_complete hmem
  rw [Response.typeName_complete] at ht
  have hfirst : first ∈ agenda (classified d s) := by
    rw [hes]
    simp
  have hstart : (classified d s).build.Grows y.2 := hsteps.grows
  exact hstart.registry.contains (hr.contains (hr.placed_of_mem_agenda hfirst) h₀ ht)

/-- There is a resource of a name, and it is found under that name. -/
def HasResource (l : Library) (name : String) : Prop :=
  ∃ c, l.resource? name = some c ∧ c.name = name

def HasManager (l : Library) (name : String) : Prop :=
  ∃ c, l.manager? name = some c ∧ c.name = name

/-- A pointer leads to an entity that is a resource. -/
def Leads (l : Library) (doc : Document) (pointer : Value) (name : String) : Prop :=
  (∃ node, doc.entity? pointer = some (name, node)) ∧ l.HasResource name

/-- Where the schema of a property refers to an entity, as its type or as the type of its items,
the property has the name of a resource there. -/
structure LinksProperty (l : Library) (doc : Document) (schema : Value) (p : Property) : Prop where
  type (pointer : Value) : schema.reference? = some pointer →
    Schema.scalarTarget? doc pointer = .ok none → l.Leads doc pointer p.type
  items (pointer : Value) : schema.reference? = none →
    Schema.typeName? (schema.get "type") = some (.str "array") →
    (schema.get "items").reference? = some pointer → Schema.scalarTarget? doc pointer = .ok none →
    ∃ name, p.items = some name ∧ l.Leads doc pointer name

/-- Where the schema of a field of a body refers to an entity, as its type or as the type of its
items, the parameter has the name of a resource there. -/
structure LinksField (l : Library) (doc : Document) (schema : Value) (p : Parameter) : Prop where
  type (pointer : Value) : schema.reference? = some pointer →
    Schema.scalarTarget? doc pointer = .ok none →
    ∃ name, p.type = .str name ∧ l.Leads doc pointer name
  items (pointer : Value) : schema.reference? = none →
    (Schema.declaredType schema).same (.str "array") = true →
    (schema.get "items").reference? = some pointer → Schema.scalarTarget? doc pointer = .ok none →
    ∃ name, p.items = .str name ∧ l.Leads doc pointer name

/-- Whatever a method names is a resource. -/
structure LinksMethod (l : Library) (doc : Document) (m : Route) : Prop where
  returns (type : String) :
    m.returnType = some type ∨ m.defaultReturnType = some type → l.HasResource type
  builds (e : Expression) : m.expression = some e ∨ m.defaultExpression = some e →
    ∀ type ∈ e.typeNames, l.HasResource type
  accepts : ∀ q ∈ m.bodyParameters, ∃ schema,
    m.operation.fieldSchema? doc q.2.name = some schema ∧ l.LinksField doc schema q.2

/-- Whatever the parts of a library name is there: `walked` are the schemas that its resources were
made of, each with the name of the resource. -/
structure IsLinked (l : Library) (d : Description) (s : Settings)
    (walked : List (String × Value)) : Prop where
  method {kind : ClassKind} {className : String} {m : Route} :
    HasMethod l kind className m → l.LinksMethod d.document m
  property : ∀ c ∈ l.resources, ∀ p ∈ c.properties, ∃ schema,
    (c.name, schema) ∈ walked ∧ Schema.Makes d.document schema p
  declaration : ∀ used ∈ walked, ∀ key schema required,
    Schema.Declares d.document used.2 key schema required → ∀ p,
    (Schema.Contribution.property key schema required).property? d.document = some p →
      l.LinksProperty d.document schema p
  uses : ∀ c ∈ l.managers, ∀ name ∈ c.uses,
    name = Namespace.qualify [Namespace.normalize s.baseNamespace, Namespace.clientName s] ∨
    name = Namespace.qualify [Namespace.normalize s.baseNamespace, Namespace.exceptions,
      Namespace.unexpectedResponse] ∨
    ∃ type, l.HasResource type ∧
      name = Namespace.qualify [Namespace.normalize s.baseNamespace, Namespace.resources, type]
  client : ∀ name ∈ l.client.managers, l.HasManager name
  resource : ∀ c ∈ l.resources, l.resource? c.name = some c
  manager : ∀ c ∈ l.managers, l.manager? c.name = some c

namespace HasParts

theorem hasResource (h : HasParts l d s (classified d s) tagged x final) {name : String}
    (hreg : final.2.registry.contains name = true) : l.HasResource name := by
  rw [Registry.contains_iff_mem_names, ← h.names_resources] at hreg
  obtain ⟨c, hc, rfl⟩ := List.mem_map.1 hreg
  obtain ⟨c', hc'⟩ := Option.isSome_iff_exists.1
    (List.find?_isSome (p := fun r : ResourceClass => r.name == c.name).2 ⟨c, hc, by simp⟩)
  exact ⟨c', hc', by simpa using List.find?_some hc'⟩

theorem leads (h : HasParts l d s (classified d s) tagged x final) {pointer : Value}
    {name : String} {b b' : Build}
    (hmake : Yields (Building.ofPointer d.document pointer []) b name b')
    (hg : b'.Grows final.2) : l.Leads d.document pointer name := by
  obtain ⟨v, hv, -⟩ := Building.yields_ofPointer hmake
  refine ⟨⟨v, hv⟩, h.hasResource ?_⟩
  exact hg.registry.contains (Building.contains_of_yields_ofPointer hmake)

theorem linksMethod (h : HasParts l d s (classified d s) tagged x final)
    (hr : (classified d s).Reflects d.document operations ps) {kind : ClassKind}
    {className : String} {m : Route} (hm : HasMethod l kind className m) :
    l.LinksMethod d.document m := by
  obtain ⟨e, y, y', -, -, hamong⟩ := h.madeOf.method hm
  obtain ⟨b, hbuilt, hg, htypes⟩ := hamong.exists_isBuiltBy hr
  obtain ⟨done, rest, -, -, hmakes, hrest⟩ := hamong
  constructor
  case returns =>
    intro type ht
    obtain ⟨r, hmem, ht⟩ := Route.exists_response_iff.2 ht
    exact h.hasResource (hg.registry.contains (htypes r hmem type ht))
  case builds =>
    intro found hfound type htype
    obtain ⟨r, hmem, hexpression⟩ := List.mem_filterMap.1 (Route.mem_expressions.2 hfound)
    obtain ⟨t, ht, rfl⟩ := Option.map_eq_some_iff.1 ((hbuilt r hmem).symm.trans hexpression)
    refine h.hasResource (hg.registry.contains ?_)
    rcases Expression.mem_typeNames_ofResponse htype with rfl | hreg
    · exact htypes r hmem type (Response.typeName_of_namedType? ht)
    · exact hreg
  case accepts =>
    intro q hq
    obtain ⟨y₁, b₁, -, -, -, -, hbody, hmethod, hoperation⟩ := exists_of_makes hmakes
    obtain ⟨name, schema, b₂, b₃, hschema, hfield, hg₃⟩ :=
      Parameter.exists_of_yields_inBody hbody hq
    have hfinal : b₃.Grows final.2 := trans_of Build.Grows hg₃
      (trans_of Build.Grows ((keeps_ofMethod _ _ _ _).of_yields hmethod) hrest.grows)
    refine ⟨schema, by rw [hoperation, hfield.name, hschema], fun pointer hp hs => ?_,
      fun pointer hp ha hi hs => ?_⟩
    · obtain ⟨type, htype, hmake⟩ := hfield.type pointer hp hs
      exact ⟨type, htype, h.leads hmake hfinal⟩
    · obtain ⟨type, htype, hmake⟩ := hfield.items pointer hp ha hi hs
      exact ⟨type, htype, h.leads hmake hfinal⟩

/-- The declarations of a schema that is used up make properties that name resources. -/
theorem linksProperty (h : HasParts l d s (classified d s) tagged x final)
    (hlinked : final.2.Linked d.document []) {used : String × Value}
    (hused : used ∈ final.2.completed) {key : Scalar} {schema : Value} {required : Bool}
    (hd : Schema.Declares d.document used.2 key schema required) {p : Property}
    (hp : (Schema.Contribution.property key schema required).property? d.document = some p) :
    l.LinksProperty d.document schema p := by
  -- A schema that is used up has no failures, so its closure lists all that its parts declare.
  have hno : ∀ f, .failure f ∉ Schema.closure d.document used.2 :=
    fun f hf => (hlinked.known used hused _ hf).no_failure f rfl
  have hknown := hlinked.known used hused _ ((Schema.mem_closure_iff hno).2 hd)
  have hregistered {pointer node : Value} {name : String}
      (hrefers : Schema.Refers d.document schema pointer)
      (he : d.document.entity? pointer = some (name, node)) : l.HasResource name := by
    obtain ⟨t, v, ht, hreg⟩ :=
      hknown.registered pointer (Schema.Contribution.pointer?_property.2 hrefers)
    obtain ⟨rfl, -⟩ := Prod.mk.inj (Option.some.inj (he.symm.trans ht))
    exact h.hasResource hreg
  constructor
  · intro pointer hr hs
    obtain ⟨node, he⟩ := Schema.Contribution.entity?_of_reference hr hs hp
    exact ⟨⟨node, he⟩, hregistered (.property hr hs) he⟩
  · intro pointer hr ht hi hs
    obtain ⟨name, node, hitems, he⟩ := Schema.Contribution.entity?_of_items hr ht hi hs hp
    exact ⟨name, hitems, ⟨node, he⟩, hregistered (.items hr ht hi hs) he⟩

/-- What a manager imports beside the client and the exception are resources. -/
theorem exists_of_mem_uses (h : HasParts l d s (classified d s) tagged x final)
    (hr : (classified d s).Reflects d.document operations ps) {g : GeneratedClass}
    (hg : g ∈ l.managers) {name : String} (hname : name ∈ g.uses) :
    name = Namespace.qualify [Namespace.normalize s.baseNamespace, Namespace.clientName s] ∨
    name = Namespace.qualify [Namespace.normalize s.baseNamespace, Namespace.exceptions,
      Namespace.unexpectedResponse] ∨
    ∃ type, l.HasResource type ∧
      name =
        Namespace.qualify [Namespace.normalize s.baseNamespace, Namespace.resources, type] := by
  obtain ⟨done, b, rest, gs, gs', y, y', hofKind, -, ⟨types, hroutes, -, huses⟩, hrest⟩ :=
    h.managers.exists_step hg
  rw [huses] at hname
  refine (mem_usesOf hname).imp_right (.imp_right ?_)
  rintro ⟨type, htype, hqualified⟩
  refine ⟨type, ?_, hqualified⟩
  rcases List.mem_append.1 htype with htype | htype
  · have hb : b ∈ (classified d s).ofKind .manager := by
      rw [hofKind]
      simp
    have hgrows : (classified d s).build.Grows final.2 := h.writes.of_spans
    exact h.hasResource (hgrows.registry.contains (hr.contains_of_mem_uses hb htype))
  · -- What a method builds was settled when it was completed, what it accepts when it was made.
    rcases mem_types_of_produces_routes hroutes htype with ⟨m, hm, e, he, htype⟩ | hreg
    · exact (h.linksMethod hr (.manager hg hm)).builds e (Route.mem_expressions.1 he) type htype
    · have hsteps : Steps d.document (rest.flatMap entriesOf) y' x :=
        ⟨_, hrest.flatMap fun _ _ _ _ hstep => hstep.along⟩
      have hgrows := trans_of Build.Grows hsteps.grows h.steps_methods.grows
      exact h.hasResource (hgrows.registry.contains hreg)

end HasParts

/-- In a library that has been made no name leads nowhere: every type that a method returns, builds
or leaves null is a resource, and so is everything that the schemas of properties and of the fields
of bodies refer to and that managers import; every manager of the client is a manager; and every
class is found under its name. -/
theorem isLinked_of_ofDescription (h : (ofDescription d s).1 = .ok l) :
    l.IsLinked d s (built d s (classified d s)).completed := by
  obtain ⟨hclassified, tagged, x, final, hparts⟩ := exists_hasParts h
  obtain ⟨ps, hreflects, hps⟩ := Classification.exists_reflects hclassified
  have hwrites : ({} : Build).Writes (classified d s).build :=
    Classification.writes_of_yields_addOperations hclassified
  have hnames := hparts.followsTags hwrites hreflects hps
  have hresource : ∀ c ∈ l.resources, l.resource? c.name = some c :=
    fun c hc => find?_key_of_nodup hnames.nodup_resources hc
  have hmanager : ∀ c ∈ l.managers, l.manager? c.name = some c :=
    fun c hc => find?_key_of_nodup hnames.nodup_managers hc
  have hlinked := hparts.linked hclassified
  rw [show (built d s (classified d s)).completed = final.2.completed from hparts.built.2]
  constructor
  case method => exact fun hm => hparts.linksMethod hreflects hm
  case property =>
    intro c hc p hp
    have hproperties : final.2.registry.properties? c.name = some c.properties := by
      rw [← hparts.madeOf.properties?, properties?, hresource c hc, Option.map_some]
    have hmem : p ∈ final.2.registry.propertiesOf c.name := by
      rw [show final.2.registry.propertiesOf c.name =
        (final.2.registry.properties? c.name).getD [] from rfl, hproperties]
      exact hp
    obtain ⟨schema, hused, hmakes⟩ := hlinked.made c.name p hmem
    exact ⟨schema, hused.resolve_left List.not_mem_nil, hmakes⟩
  case declaration =>
    exact fun used hused key schema required hd p hp => hparts.linksProperty hlinked hused hd hp
  case uses => exact fun c hc name hname => hparts.exists_of_mem_uses hreflects hc hname
  case client =>
    intro name hname
    rw [hparts.client] at hname
    obtain ⟨c, hc, rfl⟩ := List.mem_map.1 hname
    exact ⟨c, hmanager c hc, rfl⟩
  case resource => exact hresource
  case manager => exact hmanager

/-- Pets and owners refer to each other, and so does the body of a request to both. -/
def petFriends : Document := .ofValue <| .map 0 [
  (.str "openapi", .str "3.0.0"),
  (.str "info", .map 1 [(.str "title", .str "Pets"), (.str "version", .str "1")]),
  (.str "paths", .map 2 [(.str "/pets", .map 3 [(.str "post", .map 4 [
    (.str "operationId", .str "addPet"),
    (.str "tags", .seq [.str "Manager:Pets", .str "Resource:Shelter"]),
    (.str "requestBody", .map 5 [(.str "content", .map 6 [(.str "application/json", .map 7 [
      (.str "schema", .map 8 [(.str "type", .str "object"), (.str "properties", .map 9 [
        (.str "chip", Schema.referenceTo (.str "#/components/schemas/chip")),
        (.str "friends", .map 10 [(.str "type", .str "array"),
          (.str "items", Schema.referenceTo (.str "#/components/schemas/pet"))])])])])])]),
    (.str "responses", .map 11 [
      (.str "201", .map 12 [(.str "description", .str "Created"),
        (.str "content", .map 13 [(.str "application/json", .map 14 [
          (.str "schema", Schema.referenceTo (.str "#/components/schemas/pet"))])])]),
      (.str "default", .map 15 [(.str "description", .str "Failed"),
        (.str "content", .map 16 [(.str "application/json", .map 17 [
          (.str "schema", Schema.referenceTo (.str "#/components/schemas/failure"))])])])])])])]),
  (.str "components", .map 18 [(.str "schemas", .map 19 [
    (.str "pet", .map 20 [(.str "type", .str "object"), (.str "properties", .map 21 [
      (.str "owner", Schema.referenceTo (.str "#/components/schemas/owner"))])]),
    (.str "owner", .map 22 [(.str "type", .str "object"), (.str "properties", .map 23 [
      (.str "pets", .map 24 [(.str "type", .str "array"),
        (.str "items", Schema.referenceTo (.str "#/components/schemas/pet"))])])]),
    (.str "failure", .map 25 [(.str "type", .str "object"), (.str "properties", .map 26 [
      (.str "reason", .map 27 [(.str "type", .str "string")])])]),
    (.str "chip", .map 28 [(.str "type", .str "object"), (.str "properties", .map 29 [
      (.str "number", .map 30 [(.str "type", .str "string")])])])])])]

/-- The resources of a library, the types that the expressions of a method name, and what the
managers import. -/
def namesOf (l : Library) (m : Route) : List String × List String × List (List String) :=
  (l.resources.map (·.name), m.expressions.flatMap (·.typeNames), l.managers.map (·.uses))

theorem namesOf_petFriends : ofFirstMethod petFriends namesOf = some (.manager, "Pets",
    ["Pet", "Owner", "Failure", "Shelter", "Chip"], ["Pet", "Owner", "Pet", "Failure"],
    [["Api\\ApiClient", "Api\\Resources\\Shelter", "Api\\Resources\\Pet",
      "Api\\Resources\\Failure", "Api\\Resources\\Owner", "Api\\Resources\\Chip",
      "Api\\Exceptions\\UnexpectedResponseException"]]) := by
  decide +kernel

/-- Whatever the library for pets and owners names is there. -/
theorem isLinked_petFriends : ∃ d l m, Description.ofDocument petFriends "3.0.0" = .ok d ∧
    (ofDescription d {}).1 = .ok l ∧ HasMethod l .manager "Pets" m ∧
    l.IsLinked d {} (built d {} (classified d {})).completed ∧
    (namesOf l m).1 = ["Pet", "Owner", "Failure", "Shelter", "Chip"] ∧
    (namesOf l m).2.1 = ["Pet", "Owner", "Pet", "Failure"] := by
  obtain ⟨d, l, m, hd, hl, hm, hnames⟩ := exists_of_ofFirstMethod namesOf_petFriends
  exact ⟨d, l, m, hd, hl, hm, isLinked_of_ofDescription hl, by rw [hnames], by rw [hnames]⟩

end Library

end OpenApiClient
