import OpenApiClient.Proofs.Signature

/-!
# The order of a signature

A request describes parameters at three places, and a method is given one parameter for every
variable among them: `IsSignature` says which one, and in which order the chosen ones stand.
`Operation.Describes` says what an operation describes at a place, without saying how it is
looked up; nothing of it is lost on the way to a method that stands on no resource.
-/

namespace OpenApiClient

open Walk

namespace Parameter

/-- The parameters `ps` are a signature made of `all`: the first parameter of every variable,
required ones before optional ones, and in either group as they follow each other in `all`. -/
structure IsSignature (all ps : List Parameter) : Prop where
  nodup : (ps.map (·.variableName)).Nodup
  mem_iff (p : Parameter) : p ∈ ps ↔ all.find? (·.variableName == p.variableName) = some p
  requiredFirst : ps.Pairwise fun p q => q.required = true → p.required = true
  ordered : ps.Pairwise fun p q => p.required = q.required → all.idxOf p < all.idxOf q

theorem mem_distinct {ps : List Parameter} {p : Parameter} :
    p ∈ distinct ps ↔ ps.find? (·.variableName == p.variableName) = some p :=
  mem_firstsBy

theorem nodup_distinct (ps : List Parameter) : ((distinct ps).map (·.variableName)).Nodup :=
  nodup_firstsBy Parameter.variableName ps

theorem ordered_distinct (ps : List Parameter) :
    (distinct ps).Pairwise fun p q => ps.idxOf p < ps.idxOf q :=
  pairwise_firstsBy Parameter.variableName ps

theorem perm_requiredFirst (ps : List Parameter) : (requiredFirst ps).Perm ps :=
  List.filter_append_perm _ ps

theorem isSignature_requiredFirst_distinct (ps : List Parameter) :
    IsSignature ps (requiredFirst (distinct ps)) where
  nodup := (((perm_requiredFirst _).map _).nodup_iff).2 (nodup_distinct ps)
  mem_iff _ := mem_requiredFirst.trans mem_distinct
  requiredFirst := by
    refine List.pairwise_append.2 ⟨?_, ?_, fun p hp q _ _ => (List.mem_filter.1 hp).2⟩
    · exact List.pairwise_of_forall_mem_list fun p hp q _ _ => (List.mem_filter.1 hp).2
    · refine List.pairwise_of_forall_mem_list fun p _ q hq hrequired => ?_
      have hoptional := (List.mem_filter.1 hq).2
      simp [hrequired] at hoptional
  ordered := by
    have hordered : (distinct ps).Pairwise fun p q =>
        p.required = q.required → ps.idxOf p < ps.idxOf q := by
      refine (ordered_distinct ps).imp ?_
      exact fun h _ => h
    refine List.pairwise_append.2 ⟨?_, ?_, fun p hp q hq heq => ?_⟩
    · exact hordered.filter _
    · exact hordered.filter _
    · have hrequired := (List.mem_filter.1 hp).2
      have hoptional := (List.mem_filter.1 hq).2
      simp [← heq, hrequired] at hoptional

/-- Of the parameters of one name, one is there. -/
theorem exists_mem_byName {ps : List Parameter} {p : Parameter} (h : p ∈ ps) :
    ∃ q ∈ byName ps, q.1 = p.name ∧ q.2.name = p.name := by
  have htable := isTable_byName ps
  have hkey : p.name ∈ (rowsOf ps).map (·.1) :=
    List.mem_map.2 ⟨(p.name, p), mem_rowsOf.2 ⟨h, rfl⟩, rfl⟩
  obtain ⟨q, hq, hname⟩ := List.mem_map.1 (htable.mem_keys_iff.2 hkey)
  exact ⟨q, hq, hname, (mem_rowsOf.1 (htable.mem_rows hq)).2.trans hname⟩

end Parameter

/-- A node stands at a location, as a parameter of the given name. -/
def Document.Locates (doc : Document) (location : ParameterLocation) (name : String)
    (node : Value) : Prop :=
  ∃ settled, doc.settle node = .ok settled ∧ settled.isMap = true ∧
    (settled.get "in").same (.str location.key) = true ∧
    name = ((settled.get? "name").getD (.str "")).text

/-- What an operation describes by a name: a parameter in its path or in its query, or a field of
its body. -/
inductive Operation.Describes (doc : Document) (o : Operation) : ParameterLocation → String → Prop
  | path {name : String} {node : Value} (h : node ∈ o.parameters)
      (hnode : doc.Locates .path name node) : Describes doc o .path name
  | query {name : String} {node : Value} (h : node ∈ o.parameters)
      (hnode : doc.Locates .query name node) : Describes doc o .query name
  | body {name : String} {schema : Value} (h : o.fieldSchema? doc name = some schema) :
      Describes doc o .body name

/-- The parameters of a request by name, place by place. -/
structure Request where
  path : List (String × Parameter)
  query : List (String × Parameter)
  body : List (String × Parameter)

namespace Request

def parameters (request : Request) : List Parameter :=
  (request.path ++ request.query ++ request.body).map (·.2)

/-- The parameters that are left to the caller on a class of the kind. -/
def given (request : Request) : ClassKind → List Parameter
  | .manager => request.parameters
  | .resource => request.parameters.filter (·.isArgument)

end Request

/-- The request of an operation, when the fields of its body are made from a state to another. -/
structure Operation.Requests (doc : Document) (kind : ClassKind) (className : String)
    (o : Operation) (b : Build) (request : Request) (b' : Build) : Prop where
  path : Parameter.inPath doc b.registry kind className o = .ok request.path
  query : Parameter.inQuery doc b.registry kind className o = .ok request.query
  body : Walk.Yields (Parameter.inBody doc o) b request.body b'

namespace Parameter

/-- A parameter of a place: what it is called there, and the variable made of that. -/
structure IsAt (doc : Document) (o : Operation) (location : ParameterLocation) (p : Parameter) :
    Prop where
  describes : o.Describes doc location p.name
  variableName : p.variableName = Name.variableName p.name
  location : p.location = location

section Located

variable {doc : Document} {r : Registry} {kind : ClassKind} {className : String} {o : Operation}
  {location : ParameterLocation}

theorem locates_of_ofNode {node : Value} {p : Parameter}
    (h : ofNode doc r kind className location node = .ok (some p)) :
    p.location = location ∧ p.variableName = Name.variableName p.name ∧
      doc.Locates location p.name node := by
  unfold ofNode at h
  obtain ⟨settled, hsettled, h⟩ := bind_eq_ok.1 h
  split at h
  · cases h
  · next hstands =>
      obtain ⟨schema, -, h⟩ := bind_eq_ok.1 h
      obtain ⟨q, hfill, hq⟩ := map_eq_ok.1 h
      obtain ⟨-, rfl⟩ := (Fields.fill_eq_ok_iff _ _ _ _).1 hfill
      obtain rfl := Option.some.inj hq
      rw [Bool.not_eq_true, Bool.or_eq_false_iff] at hstands
      simp only [Bool.not_eq_false'] at hstands
      dsimp only
      exact ⟨rfl, rfl, settled, hsettled, hstands.1, hstands.2, rfl⟩

theorem exists_of_locates {node : Value} {name : String} {found : Option Parameter}
    (hnode : doc.Locates location name node)
    (h : ofNode doc r kind className location node = .ok found) :
    ∃ p, found = some p ∧ p.name = name := by
  obtain ⟨settled, hsettled, hmap, hin, rfl⟩ := hnode
  unfold ofNode at h
  rw [hsettled] at h
  obtain ⟨_, hok, h⟩ := bind_eq_ok.1 h
  obtain rfl := Except.ok.inj hok
  rw [if_neg (by simp [hmap, hin])] at h
  obtain ⟨schema, -, h⟩ := bind_eq_ok.1 h
  obtain ⟨q, hfill, rfl⟩ := map_eq_ok.1 h
  obtain ⟨-, rfl⟩ := (Fields.fill_eq_ok_iff _ _ _ _).1 hfill
  exact ⟨_, rfl, rfl⟩

theorem exists_of_mem_located {ps : List Parameter}
    (h : located doc r kind className location o = .ok ps) {p : Parameter} (hp : p ∈ ps) :
    ∃ node ∈ o.parameters, ofNode doc r kind className location node = .ok (some p) := by
  obtain ⟨found, hfound, rfl⟩ := map_eq_ok.1 h
  obtain ⟨q, hq, rfl⟩ := List.mem_filterMap.1 hp
  exact exists_of_mapM_eq_ok hfound hq

theorem exists_mem_located {ps : List Parameter}
    (h : located doc r kind className location o = .ok ps) {node : Value} {name : String}
    (hnode : node ∈ o.parameters) (hname : doc.Locates location name node) :
    ∃ p ∈ ps, p.name = name := by
  obtain ⟨found, hfound, rfl⟩ := map_eq_ok.1 h
  obtain ⟨q, hq, hread⟩ := exists_mem_of_mapM_eq_ok hfound hnode
  obtain ⟨p, rfl, rfl⟩ := exists_of_locates hname hread
  exact ⟨p, List.mem_filterMap.2 ⟨some p, hq, rfl⟩, rfl⟩

theorem isAt_of_mem_inPath {path : List (String × Parameter)}
    (h : inPath doc r kind className o = .ok path) {q : String × Parameter} (hq : q ∈ path) :
    IsAt doc o .path q.2 := by
  obtain ⟨ps, hps, rfl⟩ := map_eq_ok.1 h
  obtain ⟨node, hnode, hread⟩ := exists_of_mem_located hps (mem_of_mem_byName hq)
  obtain ⟨hlocation, hvariable, hname⟩ := locates_of_ofNode hread
  exact ⟨.path hnode hname, hvariable, hlocation⟩

theorem isAt_of_mem_inQuery {query : List (String × Parameter)}
    (h : inQuery doc r kind className o = .ok query) {q : String × Parameter} (hq : q ∈ query) :
    IsAt doc o .query q.2 := by
  obtain ⟨ps, hps, rfl⟩ := map_eq_ok.1 h
  obtain ⟨node, hnode, hread⟩ :=
    exists_of_mem_located hps (mem_requiredFirst.1 (mem_of_mem_byName hq))
  obtain ⟨hlocation, hvariable, hname⟩ := locates_of_ofNode hread
  exact ⟨.query hnode hname, hvariable, hlocation⟩

end Located

section Body

variable {doc : Document} {o : Operation} {b b' : Build} {body : List (String × Parameter)}

theorem isAt_of_mem_inBody (h : Yields (inBody doc o) b body b') {q : String × Parameter}
    (hq : q ∈ body) : IsAt doc o .body q.2 := by
  obtain ⟨name, schema, b₁, b₂, hschema, hfield, -⟩ := exists_of_yields_inBody h hq
  refine ⟨?_, ?_, hfield.location⟩
  · rw [hfield.name]
    exact .body hschema
  · rw [hfield.name, hfield.variableName]

theorem exists_entries_of_index {v w : Value} {name : String} (h : v.index (.str name) = .ok w) :
    ∃ origin es, v = .map origin es ∧ Value.find? (.str name) es = some w := by
  unfold Value.index at h
  split at h
  · next origin es =>
      dsimp only at h
      cases hfound : Value.find? (.str name) es with
      | none =>
          rw [hfound] at h
          cases h
      | some found =>
          rw [hfound] at h
          obtain rfl := Except.ok.inj h
          exact ⟨origin, es, rfl, hfound⟩
  all_goals cases h

/-- A mapping has an entry under a text exactly if the text is among its keys. -/
theorem isSome_find?_str {es : Value.Entries} {name : String} :
    (Value.find? (.str name) es).isSome = true ↔ Scalar.str name ∈ es.map (·.1) := by
  induction es with
  | nil => simp
  | cons e es ih =>
      obtain ⟨k, v⟩ := e
      have hk : k.same (.str name) = true ↔ Scalar.str name = k :=
        ⟨fun h => (Scalar.eq_of_same_str h).symm, fun h => by simp [← h]⟩
      unfold Value.find?
      rw [List.map_cons, List.mem_cons, ← hk, ← ih]
      split <;> simp [*]

theorem mem_members_of_find? {es : Value.Entries} {name : String} {w : Value}
    (h : Value.find? (.str name) es = some w) :
    (.str name : Value) ∈ es.map fun e => (.scalar e.1 : Value) := by
  obtain ⟨e, he, hkey⟩ := List.mem_map.1 (isSome_find?_str.1 (Option.isSome_of_eq_some h))
  exact List.mem_map.2 ⟨e, he, congrArg Value.scalar hkey⟩

/-- No member of the properties gets lost when those that are required are put first. -/
theorem mem_of_fieldNames {properties required : Value} {first rest : List Value} {name : String}
    {w : Value} (h : fieldNames properties required = .ok (first, rest))
    (hname : properties.index (.str name) = .ok w) : (.str name : Value) ∈ first ++ rest := by
  obtain ⟨origin, es, rfl, hfound⟩ := exists_entries_of_index hname
  unfold fieldNames at h
  obtain ⟨requested, -, h⟩ := bind_eq_ok.1 h
  obtain ⟨chosen, -, h⟩ := bind_eq_ok.1 h
  obtain ⟨members, hmembers, h⟩ := bind_eq_ok.1 h
  obtain rfl := Except.ok.inj hmembers
  obtain ⟨rfl, rfl⟩ := Prod.mk.inj (Except.ok.inj h)
  by_cases hchosen : chosen.any (·.same (.str name)) = true
  · obtain ⟨v, hv, hsame⟩ := List.any_eq_true.1 hchosen
    obtain rfl := Value.eq_of_same_str hsame
    exact List.mem_append_left _ hv
  · refine List.mem_append_right _ (List.mem_filter.2 ⟨mem_members_of_find? hfound, ?_⟩)
    simpa using hchosen

theorem exists_mem_inBody (h : Yields (inBody doc o) b body b') {name : String} {schema : Value}
    (hschema : o.fieldSchema? doc name = some schema) : ∃ q ∈ body, q.2.name = name := by
  unfold Operation.fieldSchema? at hschema
  obtain ⟨media, hmedia, hroot⟩ := Option.bind_eq_some_iff.1 hschema
  obtain ⟨⟨mediaType, root⟩, rfl, hsettle⟩ := Option.bind_eq_some_iff.1 hroot
  obtain ⟨settled, hsettled, hindex⟩ := Option.bind_eq_some_iff.1 hsettle
  have hmedia := toOption_eq_some.1 hmedia
  have hsettled := toOption_eq_some.1 hsettled
  have hindex := toOption_eq_some.1 hindex
  unfold inBody at h
  obtain ⟨found, b₁, hlift, h₁⟩ := yields_bind.1 h
  obtain ⟨hfound, rfl⟩ := yields_lift.1 hlift
  obtain rfl := Except.ok.inj (hmedia.symm.trans hfound)
  obtain ⟨node, b₂, hlift, h₂⟩ := yields_bind.1 h₁
  obtain ⟨hnode, rfl⟩ := yields_lift.1 hlift
  obtain rfl := Except.ok.inj (hsettled.symm.trans hnode)
  split at h₂
  · next hmap =>
      -- What is no mapping has no properties.
      have hget : settled.get? "properties" = none := by
        cases settled <;> first | rfl | simp [Value.isMap] at hmap
      rw [Value.get, hget] at hindex
      cases hindex
  · obtain ⟨⟨first, rest⟩, b₃, hlift, h₃⟩ := yields_bind.1 h₂
    obtain ⟨hnames, rfl⟩ := yields_lift.1 hlift
    obtain ⟨fields, b₄, hfields, hpure⟩ := yields_bind.1 h₃
    obtain ⟨rfl, rfl⟩ := yields_pure.1 hpure
    have hmade : List.Forall₂ (fun name p => ∀ key, name = .str key → p.name = key)
        (first ++ rest) fields := by
      refine (yields_mapM.1 hfields).forall₂ (P := fun _ (name : Value) (p : Parameter) =>
        ∀ key : String, name = .str key → p.name = key) ?_ fun _ _ _ _ _ _ _ h => h
      rintro _ s p s' hstep key rfl
      obtain ⟨schema, s₁, -, hfield⟩ := yields_bind.1 hstep
      exact (isField_of_yields_ofField hfield).name
    obtain ⟨p, hp, hname⟩ := exists_right_of_forall₂ hmade (mem_of_fieldNames hnames hindex)
    obtain ⟨q, hq, -, heq⟩ := exists_mem_byName hp
    exact ⟨q, hq, heq.trans (hname name rfl)⟩

end Body

end Parameter

namespace Operation.Requests

variable {doc : Document} {kind : ClassKind} {className : String} {o : Operation} {b b' : Build}
  {request : Request}

theorem isAt (h : o.Requests doc kind className b request b') {p : Parameter}
    (hp : p ∈ request.parameters) : ∃ location, Parameter.IsAt doc o location p := by
  obtain ⟨q, hq, rfl⟩ := List.mem_map.1 hp
  rcases List.mem_append.1 hq with hq | hq
  · rcases List.mem_append.1 hq with hq | hq
    · exact ⟨.path, Parameter.isAt_of_mem_inPath h.path hq⟩
    · exact ⟨.query, Parameter.isAt_of_mem_inQuery h.query hq⟩
  · exact ⟨.body, Parameter.isAt_of_mem_inBody h.body hq⟩

/-- Whatever an operation describes is asked for in its request. -/
theorem exists_of_describes (h : o.Requests doc kind className b request b')
    {location : ParameterLocation} {name : String} (hname : o.Describes doc location name) :
    ∃ p ∈ request.parameters, p.variableName = Name.variableName name := by
  suffices hfound : ∃ q ∈ request.path ++ request.query ++ request.body, q.2.name = name by
    obtain ⟨q, hq, rfl⟩ := hfound
    have hp : q.2 ∈ request.parameters := List.mem_map.2 ⟨q, hq, rfl⟩
    obtain ⟨_, hat⟩ := h.isAt hp
    exact ⟨q.2, hp, hat.variableName⟩
  cases hname with
  | path hnode hname =>
      obtain ⟨ps, hps, hpath⟩ := map_eq_ok.1 h.path
      obtain ⟨p, hp, rfl⟩ := Parameter.exists_mem_located hps hnode hname
      obtain ⟨q, hq, -, heq⟩ := Parameter.exists_mem_byName hp
      exact ⟨q, List.mem_append_left _ (List.mem_append_left _ (hpath ▸ hq)), heq⟩
  | query hnode hname =>
      obtain ⟨ps, hps, hquery⟩ := map_eq_ok.1 h.query
      obtain ⟨p, hp, rfl⟩ := Parameter.exists_mem_located hps hnode hname
      obtain ⟨q, hq, -, heq⟩ := Parameter.exists_mem_byName (Parameter.mem_requiredFirst.2 hp)
      exact ⟨q, List.mem_append_left _ (List.mem_append_right _ (hquery ▸ hq)), heq⟩
  | body hschema =>
      obtain ⟨q, hq, hname⟩ := Parameter.exists_mem_inBody h.body hschema
      exact ⟨q, List.mem_append_right _ hq, hname⟩

end Operation.Requests

namespace Parameter

variable {doc : Document} {kind : ClassKind} {className : String} {o : Operation} {b b' : Build}
  {ps : List Parameter}

/-- The parameters of a method are a signature of what its request leaves to the caller.  All of
them stand in the path, in the query or in the body, and on a class that stands for no resource
nothing that the operation describes there is left out. -/
theorem isSignature_of_yields_ofMethod (h : Yields (ofMethod doc kind className o) b ps b') :
    ∃ request, o.Requests doc kind className b request b' ∧
      IsSignature (request.given kind) ps ∧
      (∀ p ∈ request.parameters, ∃ location, IsAt doc o location p) ∧
      (kind = .manager → ∀ location name, o.Describes doc location name →
        ∃ p ∈ ps, p.variableName = Name.variableName name) := by
  obtain ⟨r, b₁, hr, h₁⟩ := yields_bind.1 h
  obtain ⟨rfl, rfl⟩ := Building.yields_registry.1 hr
  obtain ⟨path, b₂, hp, h₂⟩ := yields_bind.1 h₁
  obtain ⟨hpath, rfl⟩ := yields_lift.1 hp
  obtain ⟨query, b₃, hq, h₃⟩ := yields_bind.1 h₂
  obtain ⟨hquery, rfl⟩ := yields_lift.1 hq
  obtain ⟨body, b₄, hbody, hpure⟩ := yields_bind.1 h₃
  obtain ⟨rfl, rfl⟩ := yields_pure.1 hpure
  let request : Request := ⟨path, query, body⟩
  have hrequest : o.Requests doc kind className b₃ request b' := ⟨hpath, hquery, hbody⟩
  have hgiven : request.given kind =
      if kind = .resource then request.parameters.filter (·.isArgument)
      else request.parameters := by
    cases kind <;> rfl
  refine ⟨request, hrequest, ?_, fun p hp => hrequest.isAt hp, ?_⟩
  · rw [hgiven]
    exact isSignature_requiredFirst_distinct _
  · rintro rfl location name hname
    exact exists_requiredFirst_distinct.2 (hrequest.exists_of_describes hname)

/-- Pets are looked for by an owner, whom two parameters name, and by what a body says. -/
def petSearch : Operation where
  path := "/owners/{ownerId}/pets"
  method := .post
  operationId := "searchPets"
  summary := none
  description := none
  tags := []
  parameters := [
    .map 0 [(.str "name", .str "limit"), (.str "in", .str "query")],
    .map 1 [(.str "name", .str "X-Token"), (.str "in", .str "header")],
    .map 2 [(.str "name", .str "owner_id"), (.str "in", .str "query")],
    .map 3 [(.str "name", .str "since"), (.str "in", .str "query"), (.str "required", .bool true)],
    .map 4 [(.str "name", .str "ownerId"), (.str "in", .str "path"),
      (.str "required", .bool true)]]
  requestBody := some <| .map 5 [(.str "content", .map 6 [(.str "application/json", .map 7 [
    (.str "schema", .map 8 [(.str "type", .str "object"), (.str "required", .seq [.str "name"]),
      (.str "properties", .map 9 [(.str "tag", .map 10 [(.str "type", .str "string")]),
        (.str "name", .map 11 [(.str "type", .str "string")])])])])])]
  responses := []
  deprecated := false

theorem variableNames_petSearch :
    ((outcome (ofMethod (.ofValue (.map 0 [])) .manager "Pet" petSearch) {}).1.toOption.map
      fun ps => ps.map (·.variableName)) =
      some ["ownerId", "since", "name", "limit", "tag"] := by
  decide +kernel

/-- The search for pets is given the owner of its path, not the one of its query. -/
theorem isSignature_petSearch : ∃ ps b' request,
    Yields (ofMethod (.ofValue (.map 0 [])) .manager "Pet" petSearch) {} ps b' ∧
    ps.map (·.variableName) = ["ownerId", "since", "name", "limit", "tag"] ∧
    IsSignature (request : Request).parameters ps ∧
    ∀ location name, petSearch.Describes (.ofValue (.map 0 [])) location name →
      ∃ p ∈ ps, p.variableName = Name.variableName name := by
  obtain ⟨ps, hps, hnames⟩ := Option.map_eq_some_iff.1 variableNames_petSearch
  have hyields := yields_outcome (toOption_eq_some.1 hps)
  obtain ⟨request, -, hsignature, -, hdescribes⟩ := isSignature_of_yields_ofMethod hyields
  exact ⟨ps, _, request, hyields, hnames, hsignature, hdescribes rfl⟩

end Parameter

end OpenApiClient
