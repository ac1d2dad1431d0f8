import OpenApiClient.Proofs.Hinting
import OpenApiClient.Proofs.Strictness

/-!
# What the responses of an operation come to

Two responses of an operation count, and of each its first media type if that has a schema.  What
such a response comes to is told by the document alone: either its schema refers to an entity, by
itself or as the items of a list, and every method of the operation turns the response into objects
of that entity; or the schema is written in place, and there is one report of it, among the warnings
of the library and with every method of the operation.  A library warns of nothing else but of
operations that take the place of earlier ones.
-/

namespace OpenApiClient

open Walk

namespace Response

/-- The media type of a response that counts, and its schema. -/
inductive Describes (doc : Document) (node : Value) : Scalar → Value → Prop
  | first {settled media : Value} {origin : Nat} {mediaType : Scalar} {rest : Value.Entries}
      (hs : doc.settle node = .ok settled)
      (hc : settled.get "content" = .map origin ((mediaType, media) :: rest))
      (hn : (schemaOf media).isNull = false) : Describes doc node mediaType (schemaOf media)

/-- A schema refers to an entity, by itself or as the items of a list. -/
inductive PointsTo (schema : Value) : Value → Bool → Prop
  | itself {pointer : Value} (hr : schema.reference? = some pointer) : PointsTo schema pointer false
  | items {pointer : Value} (hr : schema.reference? = none)
      (ht : schema.get "type" = .str "array")
      (hi : (schema.get "items").reference? = some pointer) : PointsTo schema pointer true

theorem entityPointer?_eq_some_iff {schema pointer : Value} {isArray : Bool} :
    entityPointer? schema = some (pointer, isArray) ↔ PointsTo schema pointer isArray := by
  unfold entityPointer?
  constructor
  · intro h
    split at h
    · next p hr =>
        obtain ⟨rfl, rfl⟩ := Prod.mk.inj (Option.some.inj h)
        exact .itself hr
    · next hr =>
        split at h
        · next ht =>
            obtain ⟨p, hi, heq⟩ := Option.map_eq_some_iff.1 h
            obtain ⟨rfl, rfl⟩ := Prod.mk.inj heq
            exact .items hr (Value.eq_of_same_str ht) hi
        · cases h
  · intro h
    cases h with
    | itself hr => rw [hr]
    | items hr ht hi =>
        rw [hr, ht, hi]
        rfl

theorem entityPointer?_eq_none_iff {schema : Value} :
    entityPointer? schema = none ↔ ∀ pointer isArray, ¬ PointsTo schema pointer isArray := by
  rw [Option.eq_none_iff_forall_ne_some]
  simp only [ne_eq, Prod.forall, entityPointer?_eq_some_iff]

/-- The media type of a response that counts, and its schema, if there is one. -/
def described? (doc : Document) (node : Value) : Option (Scalar × Value) := do
  let settled ← (doc.settle node).toOption
  match settled.get "content" with
  | .map _ ((mediaType, media) :: _) =>
    if (schemaOf media).isNull then none else some (mediaType, schemaOf media)
  | _ => none

theorem described?_eq_some_iff {doc : Document} {node : Value} {mediaType : Scalar}
    {schema : Value} :
    described? doc node = some (mediaType, schema) ↔ Describes doc node mediaType schema := by
  unfold described?
  constructor
  · intro h
    obtain ⟨settled, hs, h⟩ := Option.bind_eq_some_iff.1 h
    split at h
    · next origin mediaType' media rest hc =>
        split at h
        · cases h
        · next hn =>
            obtain ⟨rfl, rfl⟩ := Prod.mk.inj (Option.some.inj h)
            exact .first (toOption_eq_some.1 hs) hc (by simpa using hn)
    · cases h
  · rintro ⟨hs, hc, hn⟩
    refine Option.bind_eq_some_iff.2 ⟨_, toOption_eq_some.2 hs, ?_⟩
    rw [hc]
    exact if_neg (by simp [hn])

/-- The report of a response whose schema is written in place. -/
def report? (doc : Document) (label : String) (q : String × Value) : Option String :=
  (described? doc q.2).bind fun described =>
    if (entityPointer? described.2).isNone then some (inlineReport label q.1 described.1) else none

/-- A response is reported exactly if its schema is written in place. -/
theorem report?_eq_some_iff {doc : Document} {label : String} {q : String × Value}
    {report : String} :
    report? doc label q = some report ↔ ∃ mediaType schema, Describes doc q.2 mediaType schema ∧
      (∀ pointer isArray, ¬ PointsTo schema pointer isArray) ∧
      report = inlineReport label q.1 mediaType := by
  unfold report?
  rw [Option.bind_eq_some_iff]
  constructor
  · rintro ⟨found, hfound, h⟩
    have hd : Describes doc q.2 found.1 found.2 := described?_eq_some_iff.1 hfound
    split at h
    · next hnone =>
        refine ⟨found.1, found.2, hd, entityPointer?_eq_none_iff.1 (by simpa using hnone), ?_⟩
        exact (Option.some.inj h).symm
    · cases h
  · rintro ⟨mediaType, schema, hd, hp, rfl⟩
    refine ⟨(mediaType, schema), described?_eq_some_iff.2 hd, if_pos ?_⟩
    rw [entityPointer?_eq_none_iff.2 hp]
    rfl

/-- A response is turned into what its schema refers to, and into nothing if that is written in
place or if there is none. -/
structure TurnsInto (doc : Document) (q : String × Value) (r : Response) : Prop where
  status : r.status = q.1
  entity {mediaType : Scalar} {schema pointer : Value} {isArray : Bool} :
    Describes doc q.2 mediaType schema → PointsTo schema pointer isArray →
    ∃ text segments, pointer = .str text ∧ Pointer.segments? text = some segments ∧
      r.typeName = some (Text.capitalizeFirst (Pointer.lastSegment segments)) ∧
      r.isArray = isArray
  nothing : (∀ mediaType schema pointer isArray,
    Describes doc q.2 mediaType schema → ¬ PointsTo schema pointer isArray) → r.typeName = none

/-- What counts of a response is told by one media type and one schema. -/
theorem Describes.unique {doc : Document} {node : Value} {mediaType mediaType' : Scalar}
    {schema schema' : Value} (h : Describes doc node mediaType schema)
    (h' : Describes doc node mediaType' schema') : mediaType = mediaType' ∧ schema = schema' :=
  Prod.mk.inj (Option.some.inj
    ((described?_eq_some_iff.2 h).symm.trans (described?_eq_some_iff.2 h')))

/-- A schema refers to one entity. -/
theorem PointsTo.unique {schema pointer pointer' : Value} {isArray isArray' : Bool}
    (h : PointsTo schema pointer isArray) (h' : PointsTo schema pointer' isArray') :
    pointer = pointer' ∧ isArray = isArray' :=
  Prod.mk.inj (Option.some.inj
    ((entityPointer?_eq_some_iff.2 h).symm.trans (entityPointer?_eq_some_iff.2 h')))

variable {doc : Document} {label status : String} {node : Value} {b b' : Build}

theorem TurnsInto.of_undescribed {q : String × Value} {r : Response} (hstatus : r.status = q.1)
    (htype : r.typeName = none) (h : described? doc q.2 = none) : TurnsInto doc q r := by
  refine ⟨hstatus, fun hd _ => ?_, fun _ => htype⟩
  cases h.symm.trans (described?_eq_some_iff.2 hd)

/-- A response whose schema is written in place is turned into nothing. -/
theorem TurnsInto.of_inline {q : String × Value} {r : Response} {mediaType : Scalar}
    {schema : Value} (hstatus : r.status = q.1) (htype : r.typeName = none)
    (hd : Describes doc q.2 mediaType schema) (hp : entityPointer? schema = none) :
    TurnsInto doc q r := by
  refine ⟨hstatus, fun hd' hp' => ?_, fun _ => htype⟩
  obtain ⟨-, rfl⟩ := hd.unique hd'
  exact absurd hp' (entityPointer?_eq_none_iff.1 hp _ _)

/-- A response whose schema refers to an entity is turned into objects of the entity. -/
theorem TurnsInto.of_entity {q : String × Value} {r : Response} {mediaType : Scalar}
    {schema pointer : Value} {isArray : Bool} {type : String} (hstatus : r.status = q.1)
    (hd : Describes doc q.2 mediaType schema) (hp : PointsTo schema pointer isArray)
    (hmake : Yields (Building.ofPointer doc pointer []) b type b')
    (htype : r.typeName = some type) (harray : r.isArray = isArray) : TurnsInto doc q r := by
  refine ⟨hstatus, fun hd' hp' => ?_, fun hnone => absurd hp (hnone _ _ _ _ hd)⟩
  obtain ⟨-, rfl⟩ := hd.unique hd'
  obtain ⟨rfl, rfl⟩ := hp.unique hp'
  obtain ⟨target, htarget, -⟩ := Building.yields_ofPointer hmake
  obtain ⟨segment, hresolve, rfl⟩ := Document.entity?_eq_some.1 htarget
  obtain ⟨text, rfl, hname⟩ := Document.entityName?_of_resolve hresolve
  obtain ⟨segments, hsegments, hlast⟩ := Option.map_eq_some_iff.1 hname
  exact ⟨text, segments, rfl, hsegments, by rw [htype, hlast], harray⟩

/-- A response is looked at with this outcome, and a report if its schema is written in place. -/
theorem turnsInto_of_yields_ofNode {r : Response × List String}
    (h : Yields (ofNode doc label status node) b r b') :
    TurnsInto doc (status, node) r.1 ∧ r.2 = (report? doc label (status, node)).toList ∧
      ∃ settled, doc.settle node = .ok settled := by
  unfold ofNode at h
  obtain ⟨settled, b₁, hlift, h₁⟩ := yields_bind.1 h
  obtain ⟨hsettle, rfl⟩ := yields_lift.1 hlift
  have hundescribed (hnone : described? doc node = none) (hr : r.2 = []) :
      r.2 = (report? doc label (status, node)).toList := by
    rw [hr, report?, hnone]
    rfl
  split at h₁
  · next origin mediaType media rest hc =>
      dsimp only at h₁
      split at h₁
      · next hnull =>
          have hnone : described? doc node = none := by
            unfold described?
            rw [hsettle]
            simp [Except.toOption, hc, hnull]
          obtain ⟨rfl, -⟩ := yields_pure.1 h₁
          exact ⟨.of_undescribed rfl rfl hnone, hundescribed hnone rfl, settled, hsettle⟩
      · next hnull =>
          have hd : Describes doc node mediaType (schemaOf media) :=
            .first hsettle hc (by simpa using hnull)
          split at h₁
          · next pointer isArray hp =>
              obtain ⟨type, b₂, hmake, hpure⟩ := yields_bind.1 h₁
              obtain ⟨rfl, -⟩ := yields_pure.1 hpure
              refine ⟨.of_entity rfl hd (entityPointer?_eq_some_iff.1 hp) hmake rfl rfl, ?_,
                settled, hsettle⟩
              rw [report?, described?_eq_some_iff.2 hd, Option.bind_some, hp]
              rfl
          · next hp =>
              obtain ⟨_, b₂, -, hpure⟩ := yields_bind.1 h₁
              obtain ⟨rfl, -⟩ := yields_pure.1 hpure
              refine ⟨.of_inline rfl rfl hd hp, ?_, settled, hsettle⟩
              rw [report?, described?_eq_some_iff.2 hd, Option.bind_some, hp]
              rfl
  · next hc =>
      have hnone : described? doc node = none := by
        unfold described?
        rw [hsettle]
        dsimp only [Except.toOption]
        rw [Option.bind_eq_bind, Option.bind_some]
        split
        · next origin mediaType media rest hc' => exact absurd hc' (hc _ _ _ _)
        · rfl
      obtain ⟨_, b₂, -, hpure⟩ := yields_bind.1 h₁
      obtain ⟨rfl, -⟩ := yields_pure.1 hpure
      exact ⟨.of_undescribed rfl rfl hnone, hundescribed hnone rfl, settled, hsettle⟩

end Response

namespace Operation

/-- The responses of an operation that count: the first one that is not the default, and the default
one. -/
def firstResponse? (o : Operation) : Option (String × Value) :=
  o.responses.find? (·.1 != Response.defaultKey)

def defaultResponse? (o : Operation) : Option (String × Value) :=
  (o.responses.lookup Response.defaultKey).map (Response.defaultKey, ·)

def considered (o : Operation) : List (String × Value) :=
  o.firstResponse?.toList ++ o.defaultResponse?.toList

/-- The reports of schemas that are written in place. -/
def inlineReports (doc : Document) (o : Operation) : List String :=
  o.considered.filterMap (Response.report? doc o.label)

variable {doc : Document} {o : Operation} {b b' : Build}

theorem turnsInto_of_yields_ofNode? {found : Option (String × Value)}
    {r : Option (Response × List String)}
    (h : Yields (Response.ofNode? doc o.label found) b r b') :
    Option.Rel (Response.TurnsInto doc) found (r.map (·.1)) ∧
      r.toList.flatMap (·.2) = found.toList.filterMap (Response.report? doc o.label) ∧
      ∀ q ∈ found, ∃ settled, doc.settle q.2 = .ok settled := by
  cases found with
  | none =>
      obtain ⟨rfl, -⟩ := yields_pure.1 h
      exact ⟨.none, rfl, nofun⟩
  | some q =>
      obtain ⟨r', hr, rfl⟩ := yields_map.1 h
      obtain ⟨hturns, hreports, hsettled⟩ := Response.turnsInto_of_yields_ofNode hr
      refine ⟨.some hturns, ?_, ?_⟩
      · rw [Option.toList_some, List.flatMap_singleton, hreports]
        cases hreport : Response.report? doc o.label (q.1, q.2) <;> simp_all
      · rintro _ ⟨⟩
        exact hsettled

/-- What an operation has been looked at for. -/
theorem turnsInto_of_yields_analyze {rs : Responses} (h : Yields (o.analyze doc) b rs b') :
    Option.Rel (Response.TurnsInto doc) o.firstResponse? rs.success ∧
    Option.Rel (Response.TurnsInto doc) o.defaultResponse? rs.default ∧
    rs.unsupported = o.inlineReports doc ∧
    ∀ q ∈ o.considered, ∃ settled, doc.settle q.2 = .ok settled := by
  rw [analyze_eq] at h
  obtain ⟨success, b₁, hsuccess, h₁⟩ := yields_bind.1 h
  obtain ⟨default, b₂, hdefault, hpure⟩ := yields_bind.1 h₁
  obtain ⟨rfl, -⟩ := yields_pure.1 hpure
  obtain ⟨hfirst, hreports, hsettled⟩ := turnsInto_of_yields_ofNode? hsuccess
  obtain ⟨hlast, hreports', hsettled'⟩ := turnsInto_of_yields_ofNode? hdefault
  refine ⟨hfirst, hlast, ?_, fun q hq => ?_⟩
  · rw [List.flatMap_append, hreports, hreports', ← List.filterMap_append]
    rfl
  · rcases List.mem_append.1 hq with hq | hq
    · exact hsettled q (Option.mem_toList.1 hq)
    · exact hsettled' q (Option.mem_toList.1 hq)

end Operation

namespace Text

theorem capitalizeFirst_ne_empty {s : String} (h : s ≠ "") : capitalizeFirst s ≠ "" := by
  unfold capitalizeFirst
  split
  · next hnil => exact absurd (String.toList_eq_nil_iff.1 hnil) h
  · next c rest _ =>
      intro hempty
      have hnil := List.append_eq_nil_iff.1 (String.ofList_eq_empty_iff.1 hempty)
      exact capitalOf_ne_nil c hnil.1

end Text

namespace Response

/-- A method accounts for a response that counts: what its schema refers to by a name is returned
and built, and a response whose schema is written in place, or has none, returns nothing. -/
structure Accounts (doc : Document) (q : String × Value) (r : Response) : Prop where
  status : r.status = q.1
  entity {mediaType : Scalar} {schema pointer : Value} {isArray : Bool} :
    Describes doc q.2 mediaType schema → PointsTo schema pointer isArray →
    ∃ text segments, pointer = .str text ∧ Pointer.segments? text = some segments ∧
      r.typeName = some (Text.capitalizeFirst (Pointer.lastSegment segments)) ∧
      r.isArray = isArray ∧ (Pointer.lastSegment segments ≠ "" → r.expression.isSome = true)
  nothing : (∀ mediaType schema pointer isArray,
    Describes doc q.2 mediaType schema → ¬ PointsTo schema pointer isArray) →
    r.typeName = none ∧ r.expression = none

theorem status_complete (registry : Registry) (r : Response) :
    (r.complete registry).status = r.status := by
  unfold complete
  split <;> rfl

theorem isArray_complete (registry : Registry) (r : Response) :
    (r.complete registry).isArray = r.isArray := by
  unfold complete
  split <;> rfl

/-- What a response is turned into is accounted for once the expression is there. -/
theorem TurnsInto.accounts {doc : Document} {q : String × Value} {r : Response}
    {registry : Registry} (h : TurnsInto doc q r)
    (hexpression : (r.complete registry).expression = (r.complete registry).namedType?.map
      (Expression.ofResponse registry · (r.complete registry).isArray)) :
    Accounts doc q (r.complete registry) := by
  have hnamed : (r.complete registry).namedType? = r.namedType? :=
    congrArg (Option.filter fun name : String => !name.isEmpty) (typeName_complete registry r)
  rw [hnamed] at hexpression
  refine ⟨by rw [status_complete, h.status], fun hd hp => ?_, fun hnone => ?_⟩
  · obtain ⟨text, segments, htext, hsegments, htype, harray⟩ := h.entity hd hp
    refine ⟨text, segments, htext, hsegments, by rw [typeName_complete, htype],
      by rw [isArray_complete, harray], fun hlast => ?_⟩
    have hisEmpty : r.namedType? =
        some (Text.capitalizeFirst (Pointer.lastSegment segments)) := by
      rw [namedType?, htype, Option.filter_some, if_pos]
      simpa using Text.capitalizeFirst_ne_empty hlast
    rw [hexpression, hisEmpty]
    rfl
  · have htype := h.nothing hnone
    rw [typeName_complete, hexpression, namedType?, htype]
    exact ⟨rfl, rfl⟩

/-- The same for responses that may be missing. -/
theorem rel_accounts {doc : Document} {found : Option (String × Value)} {r : Option Response}
    {registry : Registry} (hturns : Option.Rel (TurnsInto doc) found r)
    (hbuilt : ∀ r' ∈ r.map (·.complete registry), r'.expression =
      r'.namedType?.map (Expression.ofResponse registry · r'.isArray)) :
    Option.Rel (Accounts doc) found (r.map (·.complete registry)) := by
  cases hturns with
  | none => exact .none
  | some hturns => exact .some (hturns.accounts (hbuilt _ rfl))

end Response

namespace Classification.Reflects

variable {doc : Document} {operations : List Operation} {c : Classification}
  {ps : List PlacedOperation}

/-- Operations are told apart by their positions. -/
theorem eq_of_position
    (hps : ps.map (fun p => (p.operation, p.position)) = operations.zipIdx)
    {p p' : PlacedOperation} (hp : p ∈ ps) (hp' : p' ∈ ps) (h : p.position = p'.position) :
    p = p' := by
  have hpositions : ps.map (·.position) = List.range' 0 operations.length := by
    have hsnd := congrArg (List.map Prod.snd) hps
    rwa [List.map_map, List.zipIdx_map_snd] at hsnd
  exact List.inj_on_of_nodup_map (hpositions ▸ List.nodup_range') hp hp' h

theorem mem_operations
    (hps : ps.map (fun p => (p.operation, p.position)) = operations.zipIdx)
    {o : Operation} : o ∈ operations ↔ ∃ p ∈ ps, p.operation = o := by
  have hfst := congrArg (List.map Prod.fst) hps
  rw [List.map_map, List.zipIdx_map_fst] at hfst
  rw [← hfst, List.mem_map]
  rfl

/-- All warnings, operation by operation. -/
theorem warnings_eq (h : c.Reflects doc operations ps)
    (hps : ps.map (fun p => (p.operation, p.position)) = operations.zipIdx) :
    c.warnings = operations.zipIdx.flatMap fun e =>
      e.1.inlineReports doc ++ replacements (operations.take e.2) e.1 := by
  rw [h.warnings, ← hps, List.flatMap_map]
  refine List.flatMap_congr fun p hp => ?_
  obtain ⟨b, b', hanalyze, -⟩ := h.analyzed p hp
  rw [(Operation.turnsInto_of_yields_analyze hanalyze).2.2.1]

end Classification.Reflects

namespace Library

/-- No response that counts is dropped: every method accounts for those of its operation, with the
reports of the others, and the library warns of each of these once, and of nothing else but of
operations that take the place of earlier ones. -/
structure DropsNothing (l : Library) (d : Description) : Prop where
  settles : ∀ o ∈ d.operations, ∀ q ∈ o.considered, ∃ settled, d.document.settle q.2 = .ok settled
  operation {kind : ClassKind} {className : String} {m : Route} :
    HasMethod l kind className m → m.operation ∈ d.operations
  success {kind : ClassKind} {className : String} {m : Route} : HasMethod l kind className m →
    Option.Rel (Response.Accounts d.document) m.operation.firstResponse? m.responses.success
  default {kind : ClassKind} {className : String} {m : Route} : HasMethod l kind className m →
    Option.Rel (Response.Accounts d.document) m.operation.defaultResponse? m.responses.default
  unsupported {kind : ClassKind} {className : String} {m : Route} : HasMethod l kind className m →
    m.responses.unsupported = m.operation.inlineReports d.document
  warnings : l.warnings = d.operations.zipIdx.flatMap fun e =>
    e.1.inlineReports d.document ++ Classification.replacements (d.operations.take e.2) e.1
  reported (label : String) (q : String × Value) (report : String) :
    Response.report? d.document label q = some report ↔ ∃ mediaType schema,
      Response.Describes d.document q.2 mediaType schema ∧
      (∀ pointer isArray, ¬ Response.PointsTo schema pointer isArray) ∧
      report = Response.inlineReport label q.1 mediaType
  apart (o : Operation) (status : String) (mediaType : Scalar) (earlier : List Operation)
    (o' : Operation) :
    Response.inlineReport o.label status mediaType ∉ Classification.replacements earlier o'

variable {l : Library} {d : Description} {s : Settings} {ps : List PlacedOperation}
  {final : Assembly}

/-- A method has the responses of its operation, with their expressions. -/
theorem MadeAmong.exists_responses {e : Entry} {x x' : Assembly} {m : Route}
    (h : MadeAmong d.document (agenda (classified d s)) (start d s) e x m x' final)
    (hr : (classified d s).Reflects d.document d.operations ps)
    (hps : ps.map (fun p => (p.operation, p.position)) = d.operations.zipIdx) :
    ∃ b b' rs registry, Yields (m.operation.analyze d.document) b rs b' ∧
      m.responses = rs.complete registry ∧ m.IsBuiltBy registry := by
  have he : e ∈ agenda (classified d s) := by
    obtain ⟨done, rest, hes, -⟩ := id h
    simp [hes]
  have hoperation : m.operation = e.placed.operation := by
    obtain ⟨done, rest, -, -, hmakes, -⟩ := id h
    exact operation_of_makes hmakes
  obtain ⟨y, hat, -⟩ := h.exists_completedAt
  obtain ⟨done, first, rest, hes, -, hposition, -, hresponses⟩ := id hat
  have hfirst := hr.placed_of_mem_agenda (e := first) (by simp [hes])
  obtain ⟨b, b', hanalyze, -⟩ := hr.analyzed _ hfirst
  refine ⟨b, b', first.placed.responses, y.2.registry, ?_, hresponses, hat.isBuiltBy⟩
  rwa [hoperation, ← Classification.Reflects.eq_of_position hps hfirst (hr.placed_of_mem_agenda he)
    hposition]

/-- A method accounts for the responses of its operation. -/
theorem MadeAmong.accounts {e : Entry} {x x' : Assembly} {m : Route}
    (h : MadeAmong d.document (agenda (classified d s)) (start d s) e x m x' final)
    (hr : (classified d s).Reflects d.document d.operations ps)
    (hps : ps.map (fun p => (p.operation, p.position)) = d.operations.zipIdx) :
    Option.Rel (Response.Accounts d.document) m.operation.firstResponse? m.responses.success ∧
      Option.Rel (Response.Accounts d.document) m.operation.defaultResponse?
        m.responses.default ∧
      m.responses.unsupported = m.operation.inlineReports d.document := by
  obtain ⟨b, b', rs, registry, hanalyze, hresponses, hbuilt⟩ := h.exists_responses hr hps
  obtain ⟨hfirst, hdefault, hreports, -⟩ := Operation.turnsInto_of_yields_analyze hanalyze
  unfold Route.IsBuiltBy at hbuilt
  rw [hresponses] at hbuilt ⊢
  refine ⟨Response.rel_accounts hfirst fun r hr => hbuilt r ?_,
    Response.rel_accounts hdefault fun r hr => hbuilt r ?_, hreports⟩
  · exact List.mem_append_left _ (Option.mem_toList.2 hr)
  · exact List.mem_append_right _ (Option.mem_toList.2 hr)

/-- A response that counts is turned into what its schema refers to, or reported once. -/
theorem dropsNothing_of_ofDescription (h : (ofDescription d s).1 = .ok l) : l.DropsNothing d := by
  obtain ⟨hclassified, tagged, x, final, hparts⟩ := exists_hasParts h
  obtain ⟨ps, hreflects, hps⟩ := Classification.exists_reflects hclassified
  have hmade {kind : ClassKind} {className : String} {m : Route}
      (hm : HasMethod l kind className m) : ∃ e y y',
      MadeAmong d.document (agenda (classified d s)) (start d s) e y m y' final := by
    obtain ⟨e, y, y', -, -, hamong⟩ := hparts.madeOf.method hm
    exact ⟨e, y, y', hamong⟩
  constructor
  case settles =>
    intro o ho q hq
    obtain ⟨p, hp, rfl⟩ := (Classification.Reflects.mem_operations hps).1 ho
    obtain ⟨b, b', hanalyze, -⟩ := hreflects.analyzed p hp
    exact (Operation.turnsInto_of_yields_analyze hanalyze).2.2.2 q hq
  case operation =>
    intro kind className m hm
    obtain ⟨e, y, y', done, rest, hes, -, hmakes, -⟩ := hmade hm
    exact (Classification.Reflects.mem_operations hps).2
      ⟨e.placed, hreflects.placed_of_mem_agenda (by simp [hes]), (operation_of_makes hmakes).symm⟩
  case success =>
    intro kind className m hm
    obtain ⟨e, y, y', hamong⟩ := hmade hm
    exact (hamong.accounts hreflects hps).1
  case default =>
    intro kind className m hm
    obtain ⟨e, y, y', hamong⟩ := hmade hm
    exact (hamong.accounts hreflects hps).2.1
  case unsupported =>
    intro kind className m hm
    obtain ⟨e, y, y', hamong⟩ := hmade hm
    exact (hamong.accounts hreflects hps).2.2
  case warnings => rw [hparts.warnings, hreflects.warnings_eq hps]
  case reported => exact fun label q report => Response.report?_eq_some_iff
  case apart =>
    intro o status mediaType earlier o' hmem
    obtain ⟨t, -, heq⟩ := List.mem_map.1 hmem
    exact Classification.not_isReplacement_inlineReport o status mediaType ⟨t.1, t.2, o', heq.symm⟩

/-- A list of pets, whose default response is written in place, as is the response of an operation
that no class has. -/
def petAnswers : Document := .ofValue <| .map 0 [
  (.str "openapi", .str "3.0.0"),
  (.str "info", .map 1 [(.str "title", .str "Pets"), (.str "version", .str "1")]),
  (.str "paths", .map 2 [(.str "/pets", .map 3 [
    (.str "get", .map 4 [
      (.str "operationId", .str "listPets"),
      (.str "tags", .seq [.str "Manager:Pet"]),
      (.str "responses", .map 5 [
        (.str "default", .map 6 [(.str "description", .str "Failure"),
          (.str "content", .map 7 [(.str "text/plain", .map 8 [
            (.str "schema", .map 9 [(.str "type", .str "string")])])])]),
        (.str "200", .map 10 [(.str "description", .str "Pets"),
          (.str "content", .map 11 [(.str "application/json", .map 12 [
            (.str "schema", .map 13 [(.str "type", .str "array"),
              (.str "items", Schema.referenceTo (.str "#/components/schemas/pet"))])])])])])]),
    (.str "put", .map 14 [
      (.str "operationId", .str "replacePets"),
      (.str "responses", .map 15 [(.str "200", .map 16 [(.str "description", .str "Count"),
        (.str "content", .map 17 [(.str "application/json", .map 18 [
          (.str "schema", .map 19 [(.str "type", .str "integer")])])])])])])])]),
  (.str "components", .map 20 [(.str "schemas", .map 21 [
    (.str "pet", .map 22 [(.str "type", .str "object"), (.str "properties", .map 23 [
      (.str "name", .map 24 [(.str "type", .str "string")])])])])])]

/-- What a method returns, and whether it builds a list of it. -/
def returns (m : Route) : Option String × Bool :=
  (m.returnType, m.isArrayResponse && m.expression.isSome)

theorem returns_petAnswers :
    ofFirstMethod petAnswers (fun l m => (returns m, l.warnings)) =
      some (.manager, "Pet", (some "Pet", true),
        ["GET /pets: response default (text/plain) uses an inline schema; no return type generated",
          "PUT /pets: response 200 (application/json) uses an inline schema; " ++
            "no return type generated"]) := by
  decide +kernel

/-- The library for pets returns lists of them, and warns of the other two responses. -/
theorem dropsNothing_petAnswers : ∃ d l, Description.ofDocument petAnswers "3.0.0" = .ok d ∧
    (ofDescription d {}).1 = .ok l ∧ l.DropsNothing d ∧ l.warnings.length = 2 ∧
    ∃ m, HasMethod l .manager "Pet" m ∧ returns m = (some "Pet", true) := by
  obtain ⟨d, l, m, hd, hl, hm, heq⟩ := exists_of_ofFirstMethod returns_petAnswers
  obtain ⟨hreturns, hwarnings⟩ := Prod.mk.inj heq
  exact ⟨d, l, hd, hl, dropsNothing_of_ofDescription hl, by rw [hwarnings]; rfl, m, hm, hreturns⟩

end Library

end OpenApiClient
