import OpenApiClient.Proofs.Assembly
import OpenApiClient.Proofs.Binding
import OpenApiClient.Proofs.Table

/-!
# What a method reads and what it is given

The body of a method reads a variable for every parameter of the request whose value the caller
gives.  Path and query parameters are bound before the fields of the body are made; for the
parameters of the method they are bound again, when the body may have brought in properties by
which a resource provides a value itself.  So a method is never given a variable that it does
not read, but it may read one that it is not given: `isClosed_iff` says exactly when it does
not.
-/

namespace OpenApiClient

open Walk

namespace Parameter

theorem mem_requiredFirst {ps : List Parameter} {q : Parameter} :
    q ∈ requiredFirst ps ↔ q ∈ ps := by
  unfold requiredFirst
  cases hq : q.required <;> simp [hq]

/-- The variables of the parameters of a method are those of the parameters it is made of. -/
theorem exists_requiredFirst_distinct {ps : List Parameter} {variableName : String} :
    (∃ q ∈ requiredFirst (distinct ps), q.variableName = variableName) ↔
      ∃ q ∈ ps, q.variableName = variableName := by
  have hany : (distinct ps).any (·.variableName == variableName) =
      ps.any (·.variableName == variableName) := any_firstsBy Parameter.variableName ps variableName
  rw [Bool.eq_iff_iff, List.any_eq_true, List.any_eq_true] at hany
  simpa only [mem_requiredFirst, beq_iff_eq] using hany

theorem mem_of_mem_distinct {ps : List Parameter} {q : Parameter} (h : q ∈ distinct ps) :
    q ∈ ps :=
  (firstsBy_sublist Parameter.variableName ps).subset h

theorem mem_of_mem_requiredFirst_distinct {ps : List Parameter} {q : Parameter}
    (h : q ∈ requiredFirst (distinct ps)) : q ∈ ps :=
  mem_of_mem_distinct (mem_requiredFirst.1 h)

/-- The rows of a table of parameters by name. -/
def rowsOf (ps : List Parameter) : List (String × Parameter) := ps.map fun p => (p.name, p)

theorem isTable_byName (ps : List Parameter) : IsTable (rowsOf ps) (byName ps) := by
  have hinsert (p : Parameter) (named : List (String × Parameter)) :
      insert p named = upsert p.name p named := by
    induction named with
    | nil => rfl
    | cons e rest ih => rw [insert, upsert, ih]
  have hbyName : byName ps = tabulate (rowsOf ps) := by
    unfold byName tabulate rowsOf
    simp only [hinsert, List.foldl_map]
  rw [hbyName]
  exact isTable_tabulate _

theorem mem_rowsOf {ps : List Parameter} {e : String × Parameter} :
    e ∈ rowsOf ps ↔ e.2 ∈ ps ∧ e.2.name = e.1 := by
  obtain ⟨name, p⟩ := e
  simp [rowsOf, and_comm]

theorem mem_of_mem_byName {ps : List Parameter} {q : String × Parameter} (h : q ∈ byName ps) :
    q.2 ∈ ps :=
  (mem_rowsOf.1 ((isTable_byName ps).mem_rows h)).1

/-- A field of a body has its name, the caller gives it by the variable of that name, and where its
schema refers to an entity, as its type or as the type of its items, that entity has been made. -/
structure IsField (doc : Document) (name : String) (schema : Value) (b : Build) (p : Parameter)
    (b' : Build) : Prop where
  location : p.location = .body
  variableName : p.variableName = Name.variableName name
  name : p.name = name
  isArgument : p.isArgument = true
  type (pointer : Value) : schema.reference? = some pointer →
    Schema.scalarTarget? doc pointer = .ok none →
    ∃ type, p.type = .str type ∧ Yields (Building.ofPointer doc pointer []) b type b'
  items (pointer : Value) : schema.reference? = none →
    (Schema.declaredType schema).same (.str "array") = true →
    (schema.get "items").reference? = some pointer → Schema.scalarTarget? doc pointer = .ok none →
    ∃ type, p.items = .str type ∧ Yields (Building.ofPointer doc pointer []) b type b'

theorem exists_of_yields_itemsOf {doc : Document} {items v pointer : Value} {b b' : Build}
    (h : Yields (itemsOf doc items) b v b') (hr : items.reference? = some pointer)
    (hs : Schema.scalarTarget? doc pointer = .ok none) :
    ∃ type, v = .str type ∧ Yields (Building.ofPointer doc pointer []) b type b' := by
  unfold itemsOf at h
  rw [hr] at h
  obtain ⟨target, b₁, hlift, h₁⟩ := yields_bind.1 h
  obtain ⟨htarget, rfl⟩ := yields_lift.1 hlift
  obtain rfl : none = target := Except.ok.inj (hs.symm.trans htarget)
  obtain ⟨type, b₂, hpointer, hpure⟩ := yields_bind.1 h₁
  obtain ⟨rfl, rfl⟩ := yields_pure.1 hpure
  exact ⟨type, rfl, hpointer⟩

theorem isField_of_yields_ofField {doc : Document} {name : String} {schema : Value}
    {required : Bool} {b b' : Build} {p : Parameter}
    (h : Yields (ofField doc name schema required) b p b') : IsField doc name schema b p b' := by
  unfold ofField at h
  dsimp only at h
  split at h
  · next hmap =>
      -- What is no mapping refers to nothing.
      obtain ⟨rfl, -⟩ := yields_pure.1 h
      have hget : ∀ key, schema.get? key = none := by
        cases schema <;> first | exact fun _ => rfl | simp [Value.isMap] at hmap
      refine ⟨rfl, rfl, rfl, rfl, fun pointer hr => ?_, fun pointer _ ha => ?_⟩
      · cases (hget "$ref").symm.trans hr
      · unfold Schema.declaredType at ha
        rw [hget] at ha
        exact absurd ha (by decide)
  · split at h
    · next pointer hr =>
        obtain ⟨target, b₁, hlift, h₁⟩ := yields_bind.1 h
        obtain ⟨htarget, rfl⟩ := yields_lift.1 hlift
        cases target with
        | some node =>
            obtain ⟨rfl, rfl⟩ := yields_pure.1 h₁
            refine ⟨rfl, rfl, rfl, rfl, fun pointer' hr' hs => ?_, fun _ hnone => ?_⟩
            · obtain rfl := Option.some.inj (hr.symm.trans hr')
              cases htarget.symm.trans hs
            · cases hr.symm.trans hnone
        | none =>
            obtain ⟨type, b₂, hpointer, hpure⟩ := yields_bind.1 h₁
            obtain ⟨rfl, rfl⟩ := yields_pure.1 hpure
            refine ⟨rfl, rfl, rfl, rfl, fun pointer' hr' _ => ?_, fun _ hnone => ?_⟩
            · obtain rfl := Option.some.inj (hr.symm.trans hr')
              exact ⟨type, rfl, hpointer⟩
            · cases hr.symm.trans hnone
    · next hnone =>
        split at h
        · obtain ⟨items, b₁, hitems, hpure⟩ := yields_bind.1 h
          obtain ⟨rfl, rfl⟩ := yields_pure.1 hpure
          refine ⟨rfl, rfl, rfl, rfl, fun pointer hr => ?_, fun pointer _ _ hr hs => ?_⟩
          · cases hnone.symm.trans hr
          · exact exists_of_yields_itemsOf hitems hr hs
        · next harray =>
            obtain ⟨rfl, rfl⟩ := yields_pure.1 h
            refine ⟨rfl, rfl, rfl, rfl, fun pointer hr => ?_, fun _ _ ha => absurd ha harray⟩
            cases hnone.symm.trans hr

end Parameter

/-- The schema of a field of the body. -/
def Operation.fieldSchema? (doc : Document) (o : Operation) (name : String) : Option Value := do
  let media ← (Parameter.requestMedia? o).toOption
  let (_, schema) ← media
  let settled ← (doc.settle schema).toOption
  (((settled.get "properties").orElse (.map 0 [])).index (.str name)).toOption

namespace Parameter

/-- The parameters of a body are its fields, each made of its schema. -/
theorem exists_ofField_of_yields_inBody {doc : Document} {o : Operation} {b b' : Build}
    {ps : List (String × Parameter)} (h : Yields (inBody doc o) b ps b')
    {q : String × Parameter} (hq : q ∈ ps) : ∃ name schema required b₁ b₂,
      o.fieldSchema? doc name = some schema ∧
      Yields (ofField doc name schema required) b₁ q.2 b₂ ∧ b₂.Grows b' := by
  unfold inBody at h
  obtain ⟨media, b₁, hlift, h₁⟩ := yields_bind.1 h
  obtain ⟨hmedia, rfl⟩ := yields_lift.1 hlift
  cases media with
  | none =>
      obtain ⟨rfl, -⟩ := yields_pure.1 h₁
      cases hq
  | some media =>
      obtain ⟨settled, b₂, hlift, h₂⟩ := yields_bind.1 h₁
      obtain ⟨hsettle, rfl⟩ := yields_lift.1 hlift
      split at h₂
      · obtain ⟨rfl, -⟩ := yields_pure.1 h₂
        cases hq
      · obtain ⟨names, b₃, -, h₃⟩ := yields_bind.1 h₂
        obtain ⟨fields, b₄, hfields, hpure⟩ := yields_bind.1 h₃
        obtain ⟨rfl, rfl⟩ := yields_pure.1 hpure
        obtain ⟨_, name, _, _, _, s, s', -, -, hstep, hrest⟩ :=
          (yields_mapM.1 hfields).exists_step (mem_of_mem_byName hq)
        obtain ⟨schema, s₁, hlift, hfield⟩ := yields_bind.1 hstep
        obtain ⟨hindex, rfl⟩ := yields_lift.1 hlift
        obtain ⟨key, rfl⟩ : ∃ key, name = .str key := by
          split at hfield
          · exact ⟨_, rfl⟩
          · exact absurd hfield not_yields_throw
        refine ⟨key, schema, _, s₁, s', ?_, hfield, ?_⟩
        · simp [Operation.fieldSchema?, hmedia, hsettle, hindex, Except.toOption]
        · refine hrest.invariant (I := fun _ b => s'.Grows b) (refl_of Build.Grows s')
            fun _ name b₁ p b₂ _ hgrows hstep => trans_of Build.Grows hgrows ?_
          refine Keeps.of_yields ((Keeps.lift _).bind fun schema => ?_) hstep
          split
          · exact compositional_keeps.ofField (fun p => Building.keeps_ofPointer doc p []) _ _ _
          · exact Keeps.throw _

/-- What is known of the fields of a body holds of its parameters. -/
theorem exists_of_yields_inBody {doc : Document} {o : Operation} {b b' : Build}
    {ps : List (String × Parameter)} (h : Yields (inBody doc o) b ps b')
    {q : String × Parameter} (hq : q ∈ ps) : ∃ name schema b₁ b₂,
      o.fieldSchema? doc name = some schema ∧ IsField doc name schema b₁ q.2 b₂ ∧
      b₂.Grows b' := by
  obtain ⟨name, schema, _, b₁, b₂, hschema, hfield, hgrows⟩ := exists_ofField_of_yields_inBody h hq
  exact ⟨name, schema, b₁, b₂, hschema, isField_of_yields_ofField hfield, hgrows⟩

/-- The caller gives the fields of a body. -/
theorem isArgument_of_yields_inBody {doc : Document} {o : Operation} {b b' : Build}
    {ps : List (String × Parameter)} (h : Yields (inBody doc o) b ps b')
    {q : String × Parameter} (hq : q ∈ ps) : q.2.isArgument = true := by
  obtain ⟨name, schema, b₁, b₂, -, hfield, -⟩ := exists_of_yields_inBody h hq
  exact hfield.isArgument

end Parameter

namespace Route

def parameters (m : Route) : List Parameter :=
  (m.pathParameters ++ m.queryParameters ++ m.bodyParameters).map (·.2)

/-- A method reads the variables that it is given and no others. -/
structure IsClosed (m : Route) : Prop where
  given : ∀ p ∈ m.parameters, p.isArgument = true →
    ∃ q ∈ m.methodParameters, q.variableName = p.variableName
  read : ∀ q ∈ m.methodParameters,
    ∃ p ∈ m.parameters, p.isArgument = true ∧ p.variableName = q.variableName

/-- Some parameter of the request still asks the caller for a variable when it is bound by a
registry. -/
def StillAsks (m : Route) (r : Registry) (kind : ClassKind) (className variableName : String) :
    Prop :=
  (∃ q ∈ m.bodyParameters, q.2.variableName = variableName) ∨
    ∃ q ∈ m.pathParameters ++ m.queryParameters, q.2.variableName = variableName ∧
      (q.2.rebind r kind className).isArgument = true

end Route

namespace Library

variable {doc : Document} {e : Entry} {x x' : Assembly} {m : Route}

/-- A parameter of the path or the query is bound by the registry before the body. -/
theorem rebind_of_makes (h : Makes doc e x m x') {q : String × Parameter}
    (hq : q ∈ m.pathParameters ++ m.queryParameters) :
    q.2.rebind x.2.registry e.kind e.className = q.2 := by
  obtain ⟨-, -, -, -, hpath, hquery, -⟩ := exists_of_makes h
  rcases List.mem_append.1 hq with hq | hq
  · rw [Parameter.inPath_rebind x.2.registry] at hpath
    obtain ⟨ps, hps, heq⟩ := map_eq_ok.1 hpath
    obtain ⟨q', -, rfl⟩ := List.mem_map.1 (heq ▸ hq)
    rfl
  · rw [Parameter.inQuery_rebind x.2.registry] at hquery
    obtain ⟨ps, hps, heq⟩ := map_eq_ok.1 hquery
    obtain ⟨q', -, rfl⟩ := List.mem_map.1 (heq ▸ hq)
    rfl

/-- The parameters of a method are those whose values the caller gives once all of them are bound
by the registry after the body. -/
theorem methodParameters_of_makes (h : Makes doc e x m x') :
    m.methodParameters = Parameter.requiredFirst (Parameter.distinct (List.filter (·.isArgument)
      ((m.pathParameters ++ m.queryParameters).map
        (fun q => q.2.rebind x'.2.registry e.kind e.className) ++
      m.bodyParameters.map (·.2)))) := by
  obtain ⟨x₁, b, -, -, hpath, hquery, hbody, hmethod, -⟩ := exists_of_makes h
  obtain ⟨r, b₁, hr, h₁⟩ := yields_bind.1 hmethod
  obtain ⟨rfl, rfl⟩ := Building.yields_registry.1 hr
  obtain ⟨path, b₂, hp, h₂⟩ := yields_bind.1 h₁
  obtain ⟨hpath', rfl⟩ := yields_lift.1 hp
  obtain ⟨query, b₃, hq, h₃⟩ := yields_bind.1 h₂
  obtain ⟨hquery', rfl⟩ := yields_lift.1 hq
  obtain ⟨body, b₄, hbody', hpure⟩ := yields_bind.1 h₃
  obtain ⟨hps, rfl⟩ := yields_pure.1 hpure
  -- The second look at the body finds everything made.
  have hagain : Building.Repeatable (Parameter.inBody doc e.placed.operation) :=
    Building.repeatable_inBody _
  obtain ⟨rfl, hsame⟩ := hagain.2 _ _ _ hbody _ _ _ (refl_of Build.Grows _) hbody'
  rw [Parameter.inPath_rebind x.2.registry, hpath, ← hsame.1] at hpath'
  rw [Parameter.inQuery_rebind x.2.registry, hquery, ← hsame.1] at hquery'
  obtain rfl := Except.ok.inj hpath'
  obtain rfl := Except.ok.inj hquery'
  have hsnd : (·.2) ∘ Prod.map id (Parameter.rebind x'.2.registry e.kind e.className) =
      fun q : String × Parameter => q.2.rebind x'.2.registry e.kind e.className := rfl
  rw [hps, ← List.map_append, List.map_append, List.map_map, hsnd]
  congr 2
  split
  · rfl
  · next hkind =>
      have hmanager : e.kind = .manager := by
        cases hk : e.kind with
        | manager => rfl
        | resource => exact absurd hk hkind
      symm
      rw [List.filter_eq_self]
      intro q hq
      rcases List.mem_append.1 hq with hq | hq
      · obtain ⟨p, -, rfl⟩ := List.mem_map.1 hq
        rw [hmanager]
        exact Parameter.isArgument_rebind_manager p.2
      · obtain ⟨p, hp, rfl⟩ := List.mem_map.1 hq
        exact Parameter.isArgument_of_yields_inBody hbody hp

/-- A method is not given a variable that it does not read. -/
theorem read_of_makes (h : Makes doc e x m x') {q : Parameter} (hq : q ∈ m.methodParameters) :
    ∃ p ∈ m.parameters, p.isArgument = true ∧ p.variableName = q.variableName := by
  obtain ⟨x₁, b, -, -, -, -, hbody, -⟩ := exists_of_makes h
  rw [methodParameters_of_makes h] at hq
  obtain ⟨hq, harg⟩ := List.mem_filter.1 (Parameter.mem_of_mem_requiredFirst_distinct hq)
  rcases List.mem_append.1 hq with hq | hq
  · obtain ⟨p, hp, rfl⟩ := List.mem_map.1 hq
    refine ⟨p.2, List.mem_map.2 ⟨p, List.mem_append_left _ hp, rfl⟩, ?_, rfl⟩
    -- What asks the caller after the body has asked the caller before.
    rw [← rebind_of_makes h hp]
    exact Parameter.isArgument_rebind_of_grows (grows_of_makes h).registry harg
  · obtain ⟨p, hp, rfl⟩ := List.mem_map.1 hq
    refine ⟨p.2, List.mem_map.2 ⟨p, List.mem_append_right _ hp, rfl⟩, ?_, rfl⟩
    exact Parameter.isArgument_of_yields_inBody hbody hp

/-- A variable that a method is given is one that its request still asks for after the body. -/
theorem exists_variable_iff_of_makes (h : Makes doc e x m x') {variableName : String} :
    (∃ q ∈ m.methodParameters, q.variableName = variableName) ↔
      m.StillAsks x'.2.registry e.kind e.className variableName := by
  obtain ⟨x₁, b, -, -, -, -, hbody, -⟩ := exists_of_makes h
  rw [methodParameters_of_makes h, Parameter.exists_requiredFirst_distinct]
  constructor
  · rintro ⟨q, hq, rfl⟩
    obtain ⟨hq, harg⟩ := List.mem_filter.1 hq
    rcases List.mem_append.1 hq with hq | hq
    · obtain ⟨p, hp, rfl⟩ := List.mem_map.1 hq
      exact .inr ⟨p, hp, rfl, harg⟩
    · obtain ⟨p, hp, rfl⟩ := List.mem_map.1 hq
      exact .inl ⟨p, hp, rfl⟩
  · rintro (⟨q, hq, rfl⟩ | ⟨q, hq, rfl, harg⟩)
    · refine ⟨q.2, List.mem_filter.2 ⟨?_, ?_⟩, rfl⟩
      · exact List.mem_append_right _ (List.mem_map.2 ⟨q, hq, rfl⟩)
      · exact Parameter.isArgument_of_yields_inBody hbody hq
    · refine ⟨_, List.mem_filter.2 ⟨?_, harg⟩, rfl⟩
      exact List.mem_append_left _ (List.mem_map.2 ⟨q, hq, rfl⟩)

/-- A method is closed exactly if every variable that its path or its query asks for when they are
first bound is still asked for when they are bound again. -/
theorem isClosed_iff_of_makes (h : Makes doc e x m x') :
    m.IsClosed ↔ ∀ p ∈ m.pathParameters ++ m.queryParameters, p.2.isArgument = true →
      m.StillAsks x'.2.registry e.kind e.className p.2.variableName := by
  constructor
  · intro hclosed p hp harg
    refine (exists_variable_iff_of_makes h).1 (hclosed.given p.2 ?_ harg)
    exact List.mem_map.2 ⟨p, List.mem_append_left _ hp, rfl⟩
  · intro hasks
    refine ⟨fun p hp harg => ?_, fun q hq => ?_⟩
    · refine (exists_variable_iff_of_makes h).2 ?_
      obtain ⟨q, hq, rfl⟩ := List.mem_map.1 hp
      rcases List.mem_append.1 hq with hq | hq
      · exact hasks q hq harg
      · exact .inl ⟨q, hq, rfl⟩
    · exact read_of_makes h hq

/-- Nothing but the caller gives the parameters of a manager, so its methods are closed. -/
theorem isClosed_of_manager {d : Description} {s : Settings} {l : Library}
    (h : (ofDescription d s).1 = .ok l) {className : String} {m : Route}
    (hm : HasMethod l .manager className m) : m.IsClosed := by
  obtain ⟨final, hmade⟩ := exists_madeOf h
  obtain ⟨e, x, x', hkind, -, done, rest, -, -, hmakes, -⟩ := hmade.method hm
  refine (isClosed_iff_of_makes hmakes).2 fun p hp _ => .inr ⟨p, hp, rfl, ?_⟩
  rw [hkind]
  exact Parameter.isArgument_rebind_manager p.2

/-- Every method of a library is given only what it reads, and it is closed exactly if each
variable that its path or its query asks the caller for is asked for by some parameter still
when the fields of its body have been made. -/
theorem isClosed_iff {d : Description} {s : Settings} {l : Library}
    (h : (ofDescription d s).1 = .ok l) {kind : ClassKind} {className : String} {m : Route}
    (hm : HasMethod l kind className m) :
    ∃ e x x' final, MadeOf l d s final ∧ e.kind = kind ∧ e.className = className ∧
      MadeAmong d.document (agenda (classified d s)) (start d s) e x m x' final ∧
      (∀ q ∈ m.methodParameters,
        ∃ p ∈ m.parameters, p.isArgument = true ∧ p.variableName = q.variableName) ∧
      (m.IsClosed ↔ ∀ p ∈ m.pathParameters ++ m.queryParameters, p.2.isArgument = true →
        m.StillAsks x'.2.registry kind className p.2.variableName) := by
  obtain ⟨final, hmade⟩ := exists_madeOf h
  obtain ⟨e, x, x', rfl, rfl, hamong⟩ := hmade.method hm
  obtain ⟨done, rest, -, -, hmakes, -⟩ := id hamong
  exact ⟨e, x, x', final, hmade, rfl, rfl, hamong, fun q hq => read_of_makes hmakes hq,
    isClosed_iff_of_makes hmakes⟩

/-- The body of its one request brings in a property by which a pet knows its owner. -/
def petOwners : Document := .ofValue <| .map 0 [
  (.str "openapi", .str "3.0.0"),
  (.str "info", .map 1 [(.str "title", .str "Pets"), (.str "version", .str "1")]),
  (.str "paths", .map 2 [(.str "/owners/{ownerId}/pets", .map 3 [(.str "post", .map 4 [
    (.str "operationId", .str "addPet"),
    (.str "tags", .seq [.str "Resource:Pet"]),
    (.str "parameters", .seq [.map 5 [(.str "name", .str "ownerId"), (.str "in", .str "path"),
      (.str "required", .bool true), (.str "schema", .map 6 [(.str "type", .str "string")])]]),
    (.str "requestBody", .map 7 [(.str "content", .map 8 [(.str "application/json", .map 9 [
      (.str "schema", .map 10 [(.str "type", .str "object"), (.str "properties", .map 11 [
        (.str "pet", Schema.referenceTo (.str "#/components/schemas/Pet"))])])])])]),
    (.str "responses", .map 12 [
      (.str "201", .map 13 [(.str "description", .str "Created")])])])])]),
  (.str "components", .map 14 [(.str "schemas", .map 15 [
    (.str "Pet", .map 16 [(.str "type", .str "object"), (.str "properties", .map 17 [
      (.str "owner", .map 18 [(.str "type", .str "string")])])])])])]

def variableNames (m : Route) : List String × List String :=
  ((m.parameters.filter (·.isArgument)).map (·.variableName),
    m.methodParameters.map (·.variableName))

theorem variableNames_petOwners : ofFirstMethod petOwners (fun _ m => variableNames m) =
    some (.resource, "Pet", ["ownerId", "pet"], ["pet"]) := by
  decide +kernel

/-- The method reads the variable of the owner, which it is not given. -/
theorem not_isClosed_petOwners : ∃ d l m, Description.ofDocument petOwners "3.0.0" = .ok d ∧
    (ofDescription d {}).1 = .ok l ∧ HasMethod l .resource "Pet" m ∧ ¬ m.IsClosed := by
  obtain ⟨d, l, m, hd, hl, hm, hnames⟩ := exists_of_ofFirstMethod variableNames_petOwners
  refine ⟨d, l, m, hd, hl, hm, fun hclosed => ?_⟩
  obtain ⟨hread, hgiven⟩ := Prod.mk.inj hnames
  have howner : "ownerId" ∈ (m.parameters.filter (·.isArgument)).map (·.variableName) := by
    rw [hread]
    exact List.mem_cons_self
  obtain ⟨p, hp, hname⟩ := List.mem_map.1 howner
  obtain ⟨hp, harg⟩ := List.mem_filter.1 hp
  obtain ⟨q, hq, heq⟩ := hclosed.given p hp harg
  have howner' : "ownerId" ∈ m.methodParameters.map (·.variableName) :=
    List.mem_map.2 ⟨q, hq, heq.trans hname⟩
  rw [hgiven] at howner'
  exact absurd howner' (by decide)

/-- What the method of the pet owners is given, it reads, and it is closed exactly if the registry
left by the body still leaves the owner to the caller. -/
theorem isClosed_iff_petOwners : ∃ d l m e x x' final,
    (ofDescription d {}).1 = .ok l ∧ HasMethod l .resource "Pet" m ∧ MadeOf l d {} final ∧
    MadeAmong d.document (agenda (classified d {})) (start d {}) e x m x' final ∧
    (m.IsClosed ↔ ∀ p ∈ m.pathParameters ++ m.queryParameters, p.2.isArgument = true →
      m.StillAsks x'.2.registry .resource "Pet" p.2.variableName) := by
  obtain ⟨d, l, m, -, hl, hm, -⟩ := exists_of_ofFirstMethod variableNames_petOwners
  obtain ⟨e, x, x', final, hmade, -, -, hamong, -, hiff⟩ := isClosed_iff hl hm
  exact ⟨d, l, m, e, x, x', final, hl, hm, hmade, hamong, hiff⟩

end Library

end OpenApiClient
