import OpenApiClient.Parameter.Extraction
import OpenApiClient.Proofs.MirroredMaking
import OpenApiClient.Proofs.Placement

/-!
# Operations of mirrored documents

An operation is mirrored by one whose parameters, responses and body may be written elsewhere: it is
enough that the chains of references which start at their nodes end alike in both documents.  Such
operations have the same responses.
-/

namespace OpenApiClient

open Walk

open Value (Alike)

open Document

variable {r : Role} {doc doc' : Document} {v w p q : Value}

/-- The chains of references that start at two nodes end at copies in some role. -/
def Document.Meets (doc doc' : Document) (r : Role) (v w : Value) : Prop :=
  Matches (Copies doc doc' r) (doc.settle v) (doc'.settle w)

/-- The first entry of a mapping. -/
def Value.first? : Value → Option (Scalar × Value)
  | .map _ (e :: _) => some e
  | _ => none

theorem Document.Copies.first? (h : Copies doc doc' (.entries r) v w) :
    Option.Rel (fun e e' => e'.1 = e.1 ∧ Copies doc doc' r e.2 e'.2) v.first? w.first? := by
  cases v with
  | map origin es =>
      obtain ⟨origin', es', rfl, hes⟩ := h.exists_of_map fun _ => rfl
      cases hes with
      | nil => exact .none
      | cons he _ => exact .some he
  | _ =>
      have hw := h.isMap
      cases w with
      | map => cases hw
      | _ => exact .none

namespace Response

theorem ofNode_eq (doc : Document) (label status : String) (node : Value) :
    ofNode doc label status node = (do
      let settled ← doc.settle node
      match (settled.get "content").first? with
      | some (mediaType, media) =>
        let shape : Response := { status, mediaType }
        let schema := schemaOf media
        if schema.isNull then return (shape, [])
        match entityPointer? schema with
        | some (pointer, isArray) =>
          let type ← Building.ofPointer doc pointer []
          return ({ shape with typeName := some type, isArray }, [])
        | none =>
          let report := inlineReport label status mediaType
          Building.note .warning "compiler.expressions" report
          return (shape, [report])
      | none =>
        Building.note .debug "compiler.expressions"
          (label ++ ": response " ++ status ++ " has no content")
        return ({ status }, [])) := by
  unfold ofNode
  refine bind_congr fun settled => ?_
  rcases settled.get "content" with _ | _ | _ | _ | ⟨origin, _ | ⟨⟨mediaType, media⟩, rest⟩⟩ <;> rfl

theorem entityPointer?_of_not_reference (hr : v.reference? = none) :
    entityPointer? v = if (v.get "type").same (.str "array") then
      (v.get "items").reference?.map fun pointer => (pointer, true) else none := by
  unfold entityPointer?
  rw [hr]

/-- A response that is no reference leads to no entity, if its type may be a list with `null`. -/
theorem entityPointer?_eq_none (hr : v.reference? = none) (hreads : Role.reply.readsLists v) :
    entityPointer? v = none := by
  have hall : (entityPointer? v).all (!·.2) = true := hreads
  rw [entityPointer?_of_not_reference hr] at hall ⊢
  split at hall
  · cases hitems : (v.get "items").reference? with
    | none => simp
    | some p => simp [hitems] at hall
  · exact if_neg ‹_›

/-- A response leads to the same entity as its copy. -/
theorem entityPointer?_rel (h : Copies doc doc' .reply v w) :
    Option.Rel (fun x y => Points doc doc' x.1 y.1 ∧ y.2 = x.2) (entityPointer? v)
      (entityPointer? w) := by
  cases hr : v.reference? with
  | some p =>
      obtain ⟨q, hq, hp⟩ := h.exists_reference? rfl hr
      unfold entityPointer?
      rw [hr, hq]
      exact .some ⟨hp, rfl⟩
  | none =>
      have hentities : Option.Rel (fun x y => Points doc doc' x.1 y.1 ∧ y.2 = x.2)
          ((v.get "items").reference?.map fun p => (p, true))
          ((w.get "items").reference?.map fun p => (p, true)) := by
        have hrel := (h.get (by decide : "items" ≠ "type")).reference? rfl
        generalize (v.get "items").reference? = pointer, (w.get "items").reference? = pointer'
          at hrel
        cases hrel with
        | none => exact .none
        | some hp => exact .some ⟨hp, rfl⟩
      rw [entityPointer?_of_not_reference (h.reference?_eq_none rfl hr)]
      rcases Value.get_type_respells h.respells rfl with halike | ⟨hreads, hnull⟩
      · rw [entityPointer?_of_not_reference hr, halike.same]
        split
        · exact hentities
        · exact .none
      -- A list is no text, so that the copy leads nowhere, and neither does the response.
      · rw [entityPointer?_eq_none hr hreads]
        obtain ⟨type, -, -, hw | hw⟩ := Value.orNull_iff.1 hnull <;> rw [hw] <;> exact .none

/-- Nodes whose chains end alike are the same responses. -/
theorem parallel_ofNode (h : doc.Mirrors r doc') (hv : doc.Meets doc' .node v w)
    (label status : String) :
    Parallel (Build.Mirrors doc doc') (fun x y => y = x) (ofNode doc label status v)
      (ofNode doc' label status w) := by
  rw [ofNode_eq, ofNode_eq]
  refine (Parallel.lift hv).bind fun settled settled' hsettled => ?_
  have hentry := Copies.first? (hsettled.get (by decide : "content" ≠ "type"))
  generalize (settled.get "content").first? = entry,
    (settled'.get "content").first? = entry' at hentry
  cases hentry with
  | none => exact (Building.parallel_note _ _ _ _ _ _).bind fun _ _ _ => Parallel.pure rfl
  | @some e e' he =>
      obtain ⟨mediaType, media⟩ := e
      obtain ⟨_, media'⟩ := e'
      obtain ⟨rfl, hmedia⟩ := he
      have hschema : Copies doc doc' .reply (schemaOf media) (schemaOf media') :=
        hmedia.get (by decide : "schema" ≠ "type")
      have hpointer := entityPointer?_rel hschema
      dsimp only
      rw [Value.isNull_of_respells hschema.respells]
      split
      · exact Parallel.pure rfl
      · generalize entityPointer? (schemaOf media) = pointer,
          entityPointer? (schemaOf media') = pointer' at hpointer
        cases hpointer with
        | none => exact (Building.parallel_note _ _ _ _ _ _).bind fun _ _ _ => Parallel.pure rfl
        | @some x y hxy =>
            obtain ⟨p, isArray⟩ := x
            obtain ⟨q, _⟩ := y
            obtain ⟨hp, rfl⟩ := hxy
            refine (Building.parallel_ofPointer h hp).bind ?_
            rintro type _ rfl
            exact Parallel.pure rfl

theorem parallel_ofNode? (h : doc.Mirrors r doc') (label : String)
    {found found' : Option (String × Value)}
    (hfound : Option.Rel (fun r r' => r'.1 = r.1 ∧ doc.Meets doc' .node r.2 r'.2) found found') :
    Parallel (Build.Mirrors doc doc') (fun x y => y = x) (ofNode? doc label found)
      (ofNode? doc' label found') := by
  cases hfound with
  | none => exact Parallel.pure rfl
  | @some r r' hr =>
      obtain ⟨_, node⟩ := r
      obtain ⟨code, node'⟩ := r'
      obtain ⟨rfl, hnode⟩ := hr
      exact (parallel_ofNode h hnode label code).map fun x y h => congrArg some (h : y = x)

end Response

/-- The ends of two chains are the same parameter: what is read of it is alike, and the chains that
start at its schema end alike. -/
structure Document.SameParameter (doc doc' : Document) (v w : Value) : Prop where
  isMap : w.isMap = v.isMap
  field (name : String) (h : name ∈ ["name", "in", "required", "description"]) :
    Option.Rel Alike (v.get? name) (w.get? name)
  schema : doc.Meets doc' .node (v.get "schema") (w.get "schema")

/-- An operation and its copy: nodes of its parameters, its responses and the schema of its body may
be written elsewhere, as long as chains of references lead there. -/
structure Operation.Mirrors (doc doc' : Document) (o o' : Operation) : Prop where
  eq : o' = { o with parameters := o'.parameters, requestBody := o'.requestBody
                     responses := o'.responses }
  parameters : List.Forall₂
    (fun v w => Matches (doc.SameParameter doc') (doc.settle v) (doc'.settle w))
    o.parameters o'.parameters
  body : Matches (Option.Rel fun m m' => m'.1 = m.1 ∧ doc.Meets doc' .body m.2 m'.2)
    (Parameter.requestMedia? o) (Parameter.requestMedia? o')
  responses : List.Forall₂ (fun r r' => r'.1 = r.1 ∧ doc.Meets doc' .node r.2 r'.2)
    o.responses o'.responses

namespace Operation.Mirrors

variable {o o' : Operation}

theorem label (ho : o.Mirrors doc doc' o') : o'.label = o.label := by
  rw [ho.eq]
  rfl

theorem operationId (ho : o.Mirrors doc doc' o') : o'.operationId = o.operationId := by
  rw [ho.eq]

theorem origin (ho : o.Mirrors doc doc' o') : o'.origin = o.origin := by
  rw [ho.eq]

theorem tags (ho : o.Mirrors doc doc' o') : o'.tags = o.tags := by
  rw [ho.eq]

theorem parallel_analyze (h : doc.Mirrors r doc') (ho : o.Mirrors doc doc' o') :
    Parallel (Build.Mirrors doc doc') (fun x y => y = x) (o.analyze doc) (o'.analyze doc') := by
  rw [Operation.analyze_eq, Operation.analyze_eq, ho.label]
  have hfirst := rel_find? (f := (·.1 != Response.defaultKey)) (g := (·.1 != Response.defaultKey))
    ho.responses fun r r' hr => by rw [hr.1]
  have hdefault : Option.Rel (fun r r' => r'.1 = r.1 ∧ doc.Meets doc' .node r.2 r'.2)
      ((o.responses.lookup Response.defaultKey).map (Response.defaultKey, ·))
      ((o'.responses.lookup Response.defaultKey).map (Response.defaultKey, ·)) := by
    have hlookup := rel_lookup ho.responses Response.defaultKey
    generalize o.responses.lookup Response.defaultKey = node,
      o'.responses.lookup Response.defaultKey = node' at hlookup
    cases hlookup with
    | none => exact .none
    | some hnode => exact .some ⟨rfl, hnode⟩
  refine (Response.parallel_ofNode? h _ hfirst).bind ?_
  rintro success _ rfl
  refine (Response.parallel_ofNode? h _ hdefault).bind ?_
  rintro default _ rfl
  exact Parallel.pure rfl

end Operation.Mirrors

end OpenApiClient
