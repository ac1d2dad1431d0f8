import OpenApiClient.Description.Extraction
import OpenApiClient.Proofs.MirroredLibrary

/-!
# Reading mirrored documents

A description is read off a document part by part.  Of two documents that agree in what is read of
their nodes, the same description is read: what a parameter, a body, an operation and a path are
asked for is told by one structure each, whatever the nodes are like otherwise.
-/

namespace OpenApiClient

open Walk

open Value (Alike)

open Document

variable {doc doc' : Document} {v w root root' : Value}

/-- A mapping has an origin and entries. -/
theorem Value.exists_of_isMap (h : v.isMap = true) : ∃ origin es, v = .map origin es := by
  cases v with
  | map => exact ⟨_, _, rfl⟩
  | _ => cases h

namespace Document

/-- What a parameter stands for, and whether it can be kept where it stands. -/
structure ParameterNode (doc doc' : Document) (v w : Value) : Prop where
  settle : Matches (doc.SameParameter doc') (doc.settle v) (doc'.settle w)
  check (place : List IssuePlace) :
    Fields.mapping "parameters" place w = Fields.mapping "parameters" place v

theorem Copies.sameParameter {r : Role} (h : doc.Mirrors r doc') (hv : Copies doc doc' .node v w) :
    doc.SameParameter doc' v w where
  isMap := hv.isMap
  field name hname := by
    simp only [List.mem_cons, List.not_mem_nil, or_false] at hname
    have hcopies {name : String} (hname : name ≠ "type")
        (hfixed : Role.node.field (.str name) = .fixed) :
        Option.Rel Alike (v.get? name) (w.get? name) :=
      rel_of_eq_some (hv.get? hname) fun _ _ _ _ hab => Copies.alike (hfixed ▸ hab)
    rcases hname with rfl | rfl | rfl | rfl
    all_goals exact hcopies (by decide) rfl
  schema := h.settle_node (hv.get (by decide : "schema" ≠ "type"))

/-- Two bodies have the same first media type, the schemas of which meet. -/
structure SameBody (doc doc' : Document) (v w : Value) : Prop where
  isNull : w.isNull = v.isNull
  check : Fields.optionalMapping "request_body" w = Fields.optionalMapping "request_body" v
  isReference : w.isReference = v.isReference
  media : Option.Rel
    (fun e f => f.1 = e.1 ∧ doc.Meets doc' .body (e.2.get "schema") (f.2.get "schema"))
    (v.get "content").first? (w.get "content").first?

/-- Two nodes describe the same operation. -/
structure SameNode (doc doc' : Document) (v w : Value) : Prop where
  field (name : String)
    (h : name ∈ ["operationId", "summary", "description", "tags", "deprecated"]) :
    Alike (v.get name) (w.get name)
  parameters : Matches (List.Forall₂ (doc.ParameterNode doc')) (v.get "parameters").membersOrNone
    (w.get "parameters").membersOrNone
  body : doc.SameBody doc' (v.get "requestBody") (w.get "requestBody")
  responses : Matches (List.Forall₂ fun e f => f.1 = e.1 ∧ doc.Meets doc' .node e.2 f.2)
    (v.get "responses").entriesOrNone (w.get "responses").entriesOrNone

/-- Two nodes describe the same operations of a path. -/
structure SamePath (doc doc' : Document) (v w : Value) : Prop where
  parameters : Matches (List.Forall₂ (doc.ParameterNode doc')) (v.get "parameters").membersOrNone
    (w.get "parameters").membersOrNone
  entries : Option.Rel
    (List.Forall₂ fun e f => f.1 = e.1 ∧ ∀ k m, e.1 = .str k → Method.ofKey? k = some m →
      f.2.isMap = e.2.isMap ∧ doc.SameNode doc' e.2 f.2) v.entries? w.entries?

/-- The chains of references that start at the security schemes end alike. -/
def SameSchemes (doc doc' : Document) : Prop := Matches
  (List.Forall₂ fun e f => f.1 = e.1 ∧ Matches Alike (doc.settle e.2) (doc'.settle f.2))
  ((doc.root.get "components").get "securitySchemes").entriesOrNone
  ((doc'.root.get "components").get "securitySchemes").entriesOrNone

/-- Two documents agree in all parts of which something is read. -/
structure SameParts (doc doc' : Document) : Prop where
  information : Alike (doc.root.get "info") (doc'.root.get "info")
  servers : Alike (doc.root.get "servers") (doc'.root.get "servers")
  paths : Matches (List.Forall₂ fun e f => f.1 = e.1 ∧ doc.SamePath doc' e.2 f.2)
    (doc.root.get "paths").entriesOrNone (doc'.root.get "paths").entriesOrNone
  kind : ((doc'.root.get "components").isMap || !(doc'.root.get "components").isFilled) =
    ((doc.root.get "components").isMap || !(doc.root.get "components").isFilled)
  schemes : doc.SameSchemes doc'
  check : Fields.mapping "document" [] doc'.root = Fields.mapping "document" [] doc.root

end Document

namespace Value.Alike

theorem fieldOr {x y : Value} (h : Alike v w) (hxy : Alike x y) (name : String) :
    Matches Alike (v.fieldOr name x) (w.fieldOr name y) := by
  have hmap := congrArg₂ (fun v x => Value.fieldOr v name x) h hxy
  unfold bare at hmap
  rw [fieldOr_rename, fieldOr_rename] at hmap
  exact matches_of_map_eq hmap

theorem pair {a b x y : Value} (h : Alike a x) (h' : Alike b y) :
    Alike (Value.pair a b) (Value.pair x y) := by
  unfold Alike bare at h h' ⊢
  rw [rename_pair, rename_pair, h, h']

end Value.Alike

theorem Value.ofPairs_forall₂ {R : Value → Value → Prop} {es fs : Value.Entries}
    (h : List.Forall₂ (fun e f => f.1 = e.1 ∧ R e.2 f.2) es fs) :
    List.Forall₂ (fun e f => f.1 = e.1 ∧ R e.2 f.2) (ofPairs es) (ofPairs fs) := by
  have hinsert (k : Scalar) {x y : Value} (hxy : R x y) {es fs : Value.Entries}
      (h : List.Forall₂ (fun e f => f.1 = e.1 ∧ R e.2 f.2) es fs) :
      List.Forall₂ (fun e f => f.1 = e.1 ∧ R e.2 f.2) (insert k x es) (insert k y fs) := by
    induction h with
    | nil => exact .cons ⟨rfl, hxy⟩ .nil
    | @cons e f _ _ he hrest ih =>
        obtain ⟨l, a⟩ := e
        obtain ⟨l', b⟩ := f
        obtain ⟨rfl, hab⟩ := he
        rw [insert, insert]
        split
        · exact .cons ⟨rfl, hxy⟩ hrest
        · exact .cons ⟨rfl, hab⟩ ih
  suffices hfold : ∀ found found', List.Forall₂ (fun e f => f.1 = e.1 ∧ R e.2 f.2) found found' →
      List.Forall₂ (fun e f => f.1 = e.1 ∧ R e.2 f.2)
        (es.foldl (fun es e => insert e.1 e.2 es) found)
        (fs.foldl (fun es e => insert e.1 e.2 es) found') from
    hfold [] [] .nil
  induction h with
  | nil => exact fun _ _ hfound => hfound
  | cons he _ ih =>
      intro found found' hfound
      rw [List.foldl_cons, List.foldl_cons, he.1]
      exact ih _ _ (hinsert _ he.2 hfound)

theorem Information.ofRoot_matches (h : Alike (root.get "info") (root'.get "info")) :
    Matches (fun i i' => i' = i) (ofRoot root) (ofRoot root') := by
  have hinfo :
      Alike ((root.get "info").orElse (.map 0 [])) ((root'.get "info").orElse (.map 0 [])) :=
    h.orElse (Alike.refl _)
  refine (hinfo.fieldOr (Alike.refl _) "title").bind fun title title' htitle => ?_
  refine (hinfo.fieldOr (Alike.refl _) "version").bind fun version version' hversion => ?_
  have hfield : Matches Alike (((root.get "info").orElse (.map 0 [])).field "description")
      (((root'.get "info").orElse (.map 0 [])).field "description") := by
    have hmap := congrArg (fun v => v.field "description") hinfo
    unfold Value.bare at hmap
    rw [Value.field_rename, Value.field_rename] at hmap
    exact matches_of_map_eq hmap
  refine hfield.bind fun description description' hdescription => ?_
  refine Fields.fill_matches ?_ ?_
  · rw [Fields.optionalText_eq hdescription]
  · rw [htitle.text, hversion.text, Fields.textOf?_eq hdescription]

theorem Server.listOfRoot_matches (h : Alike (root.get "servers") (root'.get "servers")) :
    Matches (fun ss ss' => ss' = ss) (listOfRoot root) (listOfRoot root') := by
  refine h.membersOrNone.bind fun servers servers' hservers => ?_
  have hmaps : List.Forall₂ Alike (servers.filter (·.isMap)) (servers'.filter (·.isMap)) :=
    List.rel_filter (fun _ _ hv => by simp [hv.isMap]) hservers
  refine (Matches.mapM (T := fun s s' => s' = s) hmaps fun v w hv => ?_).mono fun ss ss' hss => ?_
  · have hurl : Alike ((v.get? "url").getD (.str "/")) ((w.get? "url").getD (.str "/")) := by
      have hrel := hv.get? "url"
      generalize v.get? "url" = url, w.get? "url" = url' at hrel
      cases hrel with
      | none => exact Alike.refl _
      | some h => exact h
    have hdescription := hv.get "description"
    refine Fields.fill_matches ?_ ?_
    · rw [Fields.text_eq hurl, Fields.optionalText_eq hdescription]
    · rw [Fields.textOf_eq hurl, Fields.textOf?_eq hdescription]
  · simpa using map_eq_of_forall₂ (f := id) (g := id) (fun _ _ h => h) hss

namespace Parameters

theorem fieldOr_matches (h : doc.SameParameter doc' v w) {name : String}
    (hname : name ∈ ["name", "in", "required", "description"]) (default : Value) :
    Matches Alike (v.fieldOr name default) (w.fieldOr name default) := by
  unfold Value.fieldOr
  rw [h.isMap]
  split
  · have hrel := h.field name hname
    generalize v.get? name = x, w.get? name = y at hrel
    cases hrel with
    | none => exact .ok (Alike.refl _)
    | some hxy => exact .ok hxy
  · exact .error _ _

theorem identity_matches (hv : doc.ParameterNode doc' v w) :
    Matches Alike (identity doc v) (identity doc' w) := by
  refine hv.settle.bind fun settled settled' hsettled => ?_
  refine (fieldOr_matches hsettled (by decide) _).bind fun name name' hname => ?_
  refine (fieldOr_matches hsettled (by decide) _).bind fun place place' hplace => ?_
  have hboth := hname.pair hplace
  dsimp only
  rw [hboth.isKey]
  split
  · exact .ok hboth
  · exact .error _ _

/-- The same parameters of a path are kept beside those of an operation. -/
theorem merge_matches {ofPath ofPath' ofOperation ofOperation' : Value}
    (hpath : Matches (List.Forall₂ (doc.ParameterNode doc')) ofPath.membersOrNone
      ofPath'.membersOrNone)
    (hoperation : Matches (List.Forall₂ (doc.ParameterNode doc')) ofOperation.membersOrNone
      ofOperation'.membersOrNone) :
    Matches (List.Forall₂ (doc.ParameterNode doc')) (merge doc ofPath ofOperation)
      (merge doc' ofPath' ofOperation') := by
  refine hoperation.bind fun own own' hown => ?_
  refine (Matches.mapM hown fun v w hv => identity_matches hv).bind fun taken taken' htaken => ?_
  refine hpath.bind fun inherited inherited' hinherited => ?_
  refine (Matches.filterM hinherited fun v w hv => ?_).bind fun kept kept' hkept =>
    .ok (List.rel_append hkept hown)
  refine (identity_matches hv).bind fun i i' hi => .ok ?_
  rw [any_eq_of_forall₂ htaken fun _ _ ht => ht.same_of_alike hi]

end Parameters

/-- The body of a request is read off its first media type. -/
theorem Parameter.requestMedia?_eq (o : Operation) : requestMedia? o =
    match o.requestBody with
    | none => .ok none
    | some body =>
      match body.reference? with
      | some pointer => .error (.ofValue .referencedBody pointer)
      | none => .ok ((body.get "content").first?.map fun e => (e.1, e.2.get "schema")) := by
  unfold requestMedia?
  cases o.requestBody with
  | none => rfl
  | some body =>
      dsimp only
      cases body.reference? with
      | some pointer => rfl
      | none =>
          rcases body.get "content"
            with _ | _ | _ | _ | ⟨origin, _ | ⟨⟨mediaType, media⟩, rest⟩⟩ <;>
            rfl

namespace Operation

/-- The identifier of an operation: the one that its node declares, or else one made of its method
and its path. -/
def identifierOf (path : Scalar) (method : Method) (node : Value) : Except Fault Value :=
  match (node.get "operationId").filled?, path with
  | some v, _ => .ok v
  | none, .str p => .ok (.str (Name.ofOperation method.key p))
  | none, _ => .error (.refused .notText)

/-- The operation with its parameters and its identifier, the rest read off its node. -/
def ofParts (path : Scalar) (method : Method) (node : Value) (parameters : List Value)
    (operationId : Value) : Except Fault Operation := do
  let tags ← (node.get "tags").membersOrNone
  let responses ← (node.get "responses").entriesOrNone
  Fields.fill .operation
    ([Fields.text "path" (.scalar path), Fields.text "operation_id" operationId,
      Fields.optionalText "summary" (node.get "summary"),
      Fields.optionalText "description" (node.get "description")] ++
      (Fields.mappings "parameters" parameters ++
        Fields.optionalMapping "request_body" (node.get "requestBody")).map some)
    { path := Fields.textOf (.scalar path)
      method
      operationId := Fields.textOf operationId
      summary := Fields.textOf? (node.get "summary")
      description := Fields.textOf? (node.get "description")
      tags := tags.map Value.text
      parameters
      requestBody := if (node.get "requestBody").isNull then none else some (node.get "requestBody")
      responses := (Value.ofPairs (responses.map fun (code, v) => (.str code.text, v))).map
        fun (code, v) => (code.text, v)
      deprecated := (node.get "deprecated").isFilled }

theorem ofNode_eq (doc : Document) (path : Scalar) (method : Method) (ofPath node : Value) :
    ofNode doc path method ofPath node =
      match Parameters.merge doc ofPath (node.get "parameters") with
      | .ok parameters => identifierOf path method node >>= ofParts path method node parameters
      | .error fault => .error (blame path method fault) := by
  unfold ofNode identifierOf
  cases Parameters.merge doc ofPath (node.get "parameters") with
  | error fault => rfl
  | ok parameters =>
      dsimp only
      cases (node.get "operationId").filled? with
      | some v => rfl
      | none => cases path <;> rfl

theorem identifierOf_matches (path : Scalar) (method : Method)
    (h : Alike (v.get "operationId") (w.get "operationId")) :
    Matches Alike (identifierOf path method v) (identifierOf path method w) := by
  unfold identifierOf
  have hrel := h.found? Value.filled?_rename
  generalize (v.get "operationId").filled? = id, (w.get "operationId").filled? = id' at hrel
  cases hrel with
  | some hid => exact .ok hid
  | none =>
      cases path with
      | str p => exact .ok (Alike.refl _)
      | _ => exact .error _ _

theorem requestMedia?_matches {o o' : Operation}
    (hbody : Option.Rel (doc.SameBody doc') o.requestBody o'.requestBody) :
    Matches (Option.Rel fun m m' => m'.1 = m.1 ∧ doc.Meets doc' .body m.2 m'.2)
      (Parameter.requestMedia? o) (Parameter.requestMedia? o') := by
  rw [Parameter.requestMedia?_eq, Parameter.requestMedia?_eq]
  generalize o.requestBody = body, o'.requestBody = body' at hbody
  cases hbody with
  | none => exact .ok .none
  | @some v w hv =>
      have href := hv.isReference
      have hmedia := hv.media
      unfold Value.isReference at href
      dsimp only
      generalize v.reference? = pointer, w.reference? = pointer' at href
      cases pointer <;> cases pointer' <;> try cases href
      · dsimp only
        generalize (v.get "content").first? = entry, (w.get "content").first? = entry' at hmedia
        cases hmedia with
        | none => exact .ok .none
        | some he => exact .ok (.some he)
      · exact .error _ _

/-- The same keys of parameters are reported, each at its own place. -/
theorem mappings_eq {parameters parameters' : List Value}
    (h : List.Forall₂ (doc.ParameterNode doc') parameters parameters') :
    Fields.mappings "parameters" parameters' = Fields.mappings "parameters" parameters := by
  refine flatMap_eq_of_forall₂ (forall₂_zipIdx h 0) fun a b hab => ?_
  dsimp only
  rw [hab.2]
  exact hab.1.check _

theorem ofParts_matches (path : Scalar) (method : Method) (hnode : doc.SameNode doc' v w)
    {parameters parameters' : List Value}
    (hparameters : List.Forall₂ (doc.ParameterNode doc') parameters parameters') {id id' : Value}
    (hid : Alike id id') :
    Matches (Operation.Mirrors doc doc') (ofParts path method v parameters id)
      (ofParts path method w parameters' id') := by
  have hsummary := hnode.field "summary" (by decide)
  have hdescription := hnode.field "description" (by decide)
  have hdeprecated := hnode.field "deprecated" (by decide)
  refine (hnode.field "tags" (by decide)).membersOrNone.bind fun tags tags' htags => ?_
  refine hnode.responses.bind fun responses responses' hresponses => ?_
  refine Fields.fill_matches ?issues ⟨?eq, ?parameters, ?body, ?responses⟩
  case issues =>
    rw [Fields.text_eq hid, Fields.optionalText_eq hsummary, Fields.optionalText_eq hdescription,
      mappings_eq hparameters, hnode.body.check]
  case eq =>
    rw [Fields.textOf_eq hid, Fields.textOf?_eq hsummary, Fields.textOf?_eq hdescription,
      hdeprecated.isFilled,
      map_eq_of_forall₂ (fun _ _ ht => Alike.text ht) htags]
  case parameters => exact hparameters.imp fun _ _ hp => hp.settle
  case body =>
    refine requestMedia?_matches ?_
    dsimp only
    rw [hnode.body.isNull]
    split
    · exact .none
    · exact .some hnode.body
  case responses =>
    rw [List.forall₂_map_left_iff, List.forall₂_map_right_iff]
    refine (Value.ofPairs_forall₂ (R := doc.Meets doc' .node) ?_).imp fun r r' hr => ?_
    · rw [List.forall₂_map_left_iff, List.forall₂_map_right_iff]
      exact hresponses.imp fun e f hef =>
        ⟨congrArg (fun k : Scalar => Scalar.str k.text) hef.1, hef.2⟩
    · exact ⟨congrArg Scalar.text hr.1, hr.2⟩

/-- An operation is read off a node and off its copy alike. -/
theorem ofNode_matches (path : Scalar) (method : Method) {ofPath ofPath' node node' : Value}
    (hpath : Matches (List.Forall₂ (doc.ParameterNode doc')) ofPath.membersOrNone
      ofPath'.membersOrNone) (hnode : doc.SameNode doc' node node') :
    Matches (Operation.Mirrors doc doc') (ofNode doc path method ofPath node)
      (ofNode doc' path method ofPath' node') := by
  have hmerge := Parameters.merge_matches hpath hnode.parameters
  rw [ofNode_eq, ofNode_eq]
  generalize Parameters.merge doc ofPath (node.get "parameters") = merged,
    Parameters.merge doc' ofPath' (node'.get "parameters") = merged' at hmerge
  cases hmerge with
  | error => exact .error _ _
  | ok hparameters =>
      exact (identifierOf_matches path method (hnode.field "operationId" (by decide))).bind
        fun _ _ hid => ofParts_matches path method hnode hparameters hid

/-- The operation that an entry of a path describes, if it describes one. -/
def ofField? (doc : Document) (path : Scalar) (ofPath : Value) (e : Scalar × Value) :
    Except Fault (Option Operation) :=
  match e with
  | (.str k, .map origin es) =>
    match Method.ofKey? k with
    | some m => (ofNode doc path m ofPath (.map origin es)).map some
    | none => .ok none
  | _ => .ok none

theorem listOfPath_map (doc : Document) (path : Scalar) (origin : Nat) (es : Value.Entries) :
    listOfPath doc path (.map origin es) = (do
      let read ← es.mapM (ofField? doc path ((Value.map origin es).get "parameters"))
      return read.filterMap id) := by
  unfold listOfPath
  refine congrArg (fun read => es.mapM read >>= fun read => pure (read.filterMap id))
    (funext fun e => ?_)
  obtain ⟨k, v⟩ := e
  cases k with
  | str k => cases v <;> rfl
  | _ => rfl

theorem ofField?_of_not_map {e : Scalar × Value} (h : e.2.isMap = false) (doc : Document)
    (path : Scalar) (ofPath : Value) : ofField? doc path ofPath e = .ok none := by
  obtain ⟨k, v⟩ := e
  unfold ofField?
  split
  · next heq =>
      obtain ⟨-, rfl⟩ := Prod.mk.inj heq
      cases h
  · rfl

theorem ofField?_of_not_method {k : String} (h : Method.ofKey? k = none) (doc : Document)
    (path : Scalar) (ofPath v : Value) : ofField? doc path ofPath (.str k, v) = .ok none := by
  cases v with
  | map => simp only [ofField?, h]
  | _ => rfl

/-- The operations of one path are read alike. -/
theorem listOfPath_matches (path : Scalar) {item item' : Value}
    (hitem : doc.SamePath doc' item item') :
    Matches (List.Forall₂ (Operation.Mirrors doc doc')) (listOfPath doc path item)
      (listOfPath doc' path item') := by
  have hentries := hitem.entries
  cases item with
  | map origin es =>
      obtain ⟨fs, hfs, hes⟩ := exists_of_rel hentries
      obtain ⟨origin', rfl⟩ : ∃ origin', item' = .map origin' fs := by
        cases item' <;> simp_all [Value.entries?]
      rw [listOfPath_map, listOfPath_map]
      refine (Matches.mapM (T := Option.Rel (Operation.Mirrors doc doc')) hes
        fun e f hef => ?_).bind
        fun read read' hread => .ok (List.rel_filterMap (fun _ _ ho => ho) hread)
      obtain ⟨_, node⟩ := e
      obtain ⟨key, node'⟩ := f
      obtain ⟨rfl, hnode⟩ := hef
      cases key with
      | str k =>
          cases hk : Method.ofKey? k with
          | none =>
              rw [ofField?_of_not_method hk, ofField?_of_not_method hk]
              exact .ok .none
          | some m =>
              obtain ⟨hmap, hnode⟩ := hnode k m rfl hk
              cases hm : node.isMap with
              | false =>
                  rw [ofField?_of_not_map hm, ofField?_of_not_map (hmap.trans hm)]
                  exact .ok .none
              | true =>
                  obtain ⟨_, _, rfl⟩ := Value.exists_of_isMap hm
                  obtain ⟨_, _, rfl⟩ := Value.exists_of_isMap (hmap.trans hm)
                  simp only [ofField?, hk]
                  exact (ofNode_matches path m hitem.parameters hnode).map fun _ _ ho => .some ho
      | _ => exact .ok .none
  | _ =>
      have hnone := eq_none_of_rel hentries
      cases item' with
      | map => cases hnone
      | _ => exact .ok .nil

/-- Operations and their copies have the same origins. -/
theorem numbered_mirrors {operations operations' : List Operation}
    (h : List.Forall₂ (Operation.Mirrors doc doc') operations operations') :
    List.Forall₂ (Operation.Mirrors doc doc') (numbered operations) (numbered operations') := by
  unfold numbered
  rw [List.forall₂_map_left_iff, List.forall₂_map_right_iff]
  refine (forall₂_zipIdx h 0).imp fun a b ⟨ho, horigin⟩ => ?_
  dsimp only
  rw [← horigin]
  exact ⟨congrArg ({ · with origin := b.2 }) ho.eq, ho.parameters, ho.body, ho.responses⟩

/-- The operations of a document are read alike. -/
theorem listOfRoot_matches
    (hpaths : Matches (List.Forall₂ fun e f => f.1 = e.1 ∧ doc.SamePath doc' e.2 f.2)
      (doc.root.get "paths").entriesOrNone (doc'.root.get "paths").entriesOrNone) :
    Matches (List.Forall₂ (Operation.Mirrors doc doc')) (listOfRoot doc) (listOfRoot doc') := by
  refine hpaths.bind fun paths paths' hentries => ?_
  refine (Matches.mapM (T := List.Forall₂ (Operation.Mirrors doc doc')) hentries
    fun e f hef => ?_).bind fun read read' hread => .ok (numbered_mirrors (List.rel_flatten hread))
  obtain ⟨_, item⟩ := e
  obtain ⟨path, item'⟩ := f
  obtain ⟨rfl, hitem⟩ := hef
  exact listOfPath_matches path hitem

end Operation

namespace SecurityScheme

theorem ofValue_matches (name : Scalar) (h : Alike v w) :
    Matches (fun s s' => s' = s) (ofValue name v) (ofValue name w) := by
  have htype : Alike ((v.get? "type").getD (.str "")) ((w.get? "type").getD (.str "")) := by
    have hrel := h.get? "type"
    generalize v.get? "type" = type, w.get? "type" = type' at hrel
    cases hrel with
    | none => exact Alike.refl _
    | some h => exact h
  have hdescription := h.get "description"
  have hscheme := h.get "scheme"
  have hbearer := h.get "bearerFormat"
  refine Fields.fill_matches ?_ ?_
  · rw [Fields.optionalText_eq hdescription, Fields.optionalText_eq hscheme,
      Fields.optionalText_eq hbearer]
  · rw [htype.text, Fields.textOf?_eq hdescription, Fields.textOf?_eq hscheme,
      Fields.textOf?_eq hbearer]

/-- Security schemes are read off the components, if these are a mapping or not filled. -/
theorem field_orElse (components : Value) (name : String) :
    (components.orElse (.map 0 [])).field name =
      if components.isMap || !components.isFilled then .ok (components.get name)
      else .error (.refused .notAMapping) := by
  unfold Value.orElse
  cases hf : components.isFilled with
  | true => simp [Value.field]
  | false =>
      have hnone : components.get name = .null := by
        cases components with
        | map origin es =>
            have hes : es = [] := by simpa [Value.isFilled] using hf
            subst hes
            rfl
        | _ => rfl
      rw [hnone]
      cases components.isMap <;> rfl

theorem listOfRoot_matches
    (hkind : ((doc'.root.get "components").isMap || !(doc'.root.get "components").isFilled) =
      ((doc.root.get "components").isMap || !(doc.root.get "components").isFilled))
    (hschemes : doc.SameSchemes doc') :
    Matches (fun ss ss' => ss' = ss) (listOfRoot doc) (listOfRoot doc') := by
  unfold listOfRoot
  dsimp only
  rw [field_orElse, field_orElse, hkind]
  split
  · refine hschemes.bind fun schemes schemes' hentries => ?_
    refine (Matches.mapM (T := fun s s' => s' = s) hentries fun e f hef => ?_).map
      fun read read' hread => ?_
    · obtain ⟨_, node⟩ := e
      obtain ⟨name, node'⟩ := f
      obtain ⟨rfl, hnode⟩ := hef
      refine hnode.bind fun settled settled' hsettled => ?_
      rw [hsettled.isMap]
      split
      · exact (ofValue_matches _ hsettled).map fun _ _ hs => congrArg some hs
      · exact .ok rfl
    · have heq := map_eq_of_forall₂ (f := id) (g := id) (fun _ _ hs => hs) hread
      rw [List.map_id, List.map_id] at heq
      rw [heq]
  · exact .error _ _

end SecurityScheme

/-- The same description is read off both documents. -/
theorem Description.matches_of_sameParts (h : doc.SameParts doc') (version : String) :
    Matches (fun d d' => d.Mirrors d' ∧ d.document = doc ∧ d'.document = doc')
      (ofDocument doc version) (ofDocument doc' version) := by
  refine (Information.ofRoot_matches h.information).bind fun information _ hinformation => ?_
  refine (Server.listOfRoot_matches h.servers).bind fun servers _ hservers => ?_
  refine (Operation.listOfRoot_matches h.paths).bind fun operations operations' hoperations => ?_
  refine (SecurityScheme.listOfRoot_matches h.kind h.schemes).bind fun schemes _ hschemes => ?_
  refine Fields.fill_matches ?_ ⟨⟨hinformation, hservers, hschemes, hoperations⟩, rfl, rfl⟩
  rw [h.check]

end OpenApiClient
