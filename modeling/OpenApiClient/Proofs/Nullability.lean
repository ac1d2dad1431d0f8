import OpenApiClient.Proofs.Transparency

/-!
# Types that may be null, throughout a document

Whether a schema names its type or says besides that a value may be null makes no difference to the
library of a document, at component schemas, properties, schemas of parameters, fields of bodies and
their items, and responses, as long as the two texts in which the type is compared as it stands are
left alone: the type of items that a property describes in place, and that of a response which is a
list of an entity.  There it does make a difference.
-/

namespace OpenApiClient

open Walk

open Value (Alike)

namespace Role

/-- The role of what stands behind some segments, none behind the type of a schema. -/
def along : Role → List String → Option Role
  | r, [] => some r
  | r, s :: rest => if r.isSchema && s = "type" then none else (r.field (.str s)).along rest

/-- Whether a value of this role can be used as a schema, a parameter or a response. -/
def isNode : Role → Bool
  | .fixed | .node | .property | .items | .reply => true
  | _ => false

theorem refines_node_of_isNode {r : Role} (h : r.isNode) : r.Refines .node := by
  cases r with
  | fixed => exact fixed_refines _
  | node => exact .refl _
  | property => exact property_refines_node
  | items => exact items_refines_node
  | reply => exact reply_refines_node
  | _ => cases h

theorem isSchema_of_readsLists {r : Role} {v : Value} (h : r.readsLists v) : r.isSchema := by
  cases r with
  | body => rfl
  | node => rfl
  | property => rfl
  | items => rfl
  | reply => rfl
  | _ => cases h

end Role

/-- Whether a pointer leads to a node, if it leads anywhere: not to a mapping or a list of nodes,
and not into a type. -/
def Pointer.leadsToNode (s : String) : Bool :=
  match segments? s with
  | none => true
  | some segments => (Role.components.along segments).any (·.isNode)

namespace Document

variable {doc doc' : Document} {v w : Value} {free : Role → Value → Bool}

/-- The other document is the same but for types that are lists with `null`.  All pointers lead to
nodes, what is one node in the one document is one node in the other, and the security schemes, the
types of which are no types of values, stay as they are. -/
structure Respells (free : Role → Value → Bool) (doc doc' : Document) : Prop where
  root : doc.root.respells free .root doc'.root
  pointers : ∀ s ∈ doc.pointers, Pointer.leadsToNode s
  apart : ∀ s ∈ doc.pointers, ∀ t ∈ doc.pointers,
    doc.target? s = doc.target? t ↔ doc'.target? s = doc'.target? t
  schemes : doc.SameSchemes doc'

section Walking

variable (hfree : ∀ r v, free r v → r.isSchema)

include hfree

theorem step?_respells {r : Role} {s : String} (h : v.respells free r w)
    (hs : (r.isSchema && s = "type") = false) :
    Matches (Option.Rel fun x y => x.respells free (r.field (.str s)) y) (Pointer.step? v s)
      (Pointer.step? w s) := by
  cases v with
  | map origin es =>
      obtain ⟨_, fs, rfl, hes⟩ := Value.exists_of_respells_map h
      refine .ok (rel_of_eq_some (Value.find?_respells hes s) fun x y _ _ hxy => ?_)
      refine hxy.resolve_right fun hown => ?_
      simp [hfree _ _ hown.1, hown.2.1] at hs
  | seq vs =>
      obtain ⟨ws, rfl, hvs⟩ := Value.exists_of_respells_seq h (.str s)
      unfold Pointer.step?
      dsimp only
      split
      · split
        · exact .ok (rel_getElem? hvs _)
        · exact .error _ _
      · exact .ok .none
  | _ =>
      have halike := Value.alike_of_respells h rfl (by simp)
      have hmap := halike.isMap
      cases w with
      | map => cases hmap
      | seq ws =>
          obtain ⟨_, hv, -⟩ := halike.symm.of_seq
          cases hv
      | _ => exact .ok .none

theorem walk_respells {p : String} {segments : List String} {r q : Role} {walked : List String}
    (h : v.respells free r w) (hq : r.along segments = some q) :
    Matches (fun x y => x.respells free q y) (Pointer.walk p walked v segments)
      (Pointer.walk p walked w segments) := by
  induction segments generalizing r v w walked with
  | nil =>
      obtain rfl := Option.some.inj hq
      exact .ok h
  | cons s rest ih =>
      rw [Role.along] at hq
      split at hq
      · cases hq
      · next hs =>
          have hstep := step?_respells hfree h (Bool.eq_false_iff.2 hs)
          rw [Pointer.walk, Pointer.walk]
          generalize Pointer.step? v s = x, Pointer.step? w s = y at hstep
          cases hstep with
          | error => exact .error _ _
          | ok hxy =>
              cases hxy with
              | none => exact .error _ _
              | some hxy => exact ih hxy hq

end Walking

namespace Respells

theorem leads (h : doc.Respells free doc') (hfree : ∀ r v, free r v → r.isSchema) {s : String}
    {segments : List String} {q : Role} (hs : Pointer.segments? s = some segments)
    (hq : Role.components.along segments = some q) :
    Matches (fun x y => y.1 = x.1 ∧ x.2.respells free q y.2) (doc.resolve (.str s))
      (doc'.resolve (.str s)) := by
  have hcomponents : (doc.root.get "components").respells free .components
      (doc'.root.get "components") := by
    have hrel := Value.get?_respells h.root (by decide : "components" ≠ "type")
    unfold Value.get
    generalize doc.root.get? "components" = x, doc'.root.get? "components" = y at hrel ⊢
    cases hrel with
    | none => exact Value.respells_of_alike (Alike.refl _)
    | some hxy => exact hxy
  rw [resolve_of_segments? hs, resolve_of_segments? hs, Value.isMap_of_respells hcomponents]
  split
  · exact (walk_respells hfree hcomponents hq).map fun x y hxy => ⟨rfl, hxy⟩
  · exact .error _ _

theorem mirrors (h : doc.Respells Role.readsLists doc') : doc.Mirrors .node doc' where
  role := .refl _
  leads s hs := by
    have hnode := h.pointers s hs
    unfold Pointer.leadsToNode at hnode
    cases hsegments : Pointer.segments? s with
    | none =>
        unfold resolve
        dsimp only
        rw [hsegments]
        exact .error _ _
    | some segments =>
        rw [hsegments] at hnode
        obtain ⟨q, hq, hnode⟩ := (Option.any_eq_true _ _).1 hnode
        exact (h.leads (fun _ _ => Role.isSchema_of_readsLists) hsegments hq).mono fun x y hxy =>
          ⟨hxy.1, Role.refines_node_of_isNode hnode hxy.2⟩
  apart s t hs ht := h.apart s hs t ht

/-- The roots are copies of each other. -/
theorem copies_root (h : doc.Respells Role.readsLists doc') :
    Copies doc doc' .root doc.root doc'.root where
  respells := h.root
  within s hs := by
    refine ⟨doc.pointers_eq ▸ hs, ?_⟩
    rwa [doc'.pointers_eq, Value.pointers_of_respells h.root]

end Respells

namespace Copies

variable {r : Role}

theorem mapping_eq (h : Copies doc doc' r v w) (field : String) (place : List IssuePlace) :
    Fields.mapping field place w = Fields.mapping field place v := by
  cases v with
  | map origin es =>
      obtain ⟨_, fs, rfl, hes⟩ := Value.exists_of_respells_map h.respells
      rw [Fields.mapping, Fields.mapping, map_eq_of_forall₂ (fun _ _ he => he.1) hes]
  | _ =>
      have hmap := h.isMap
      cases w with
      | map => cases hmap
      | _ => rfl

theorem parameterNodes (h : doc.Mirrors .node doc') (hv : Copies doc doc' (.list .node) v w) :
    Matches (List.Forall₂ (doc.ParameterNode doc')) v.membersOrNone w.membersOrNone :=
  hv.membersOrNone.mono fun _ _ hvs => hvs.imp fun _ _ hv =>
    ⟨(h.settle_node hv).mono fun _ _ hvw => hvw.sameParameter h, hv.mapping_eq _⟩

theorem sameBody (h : doc.Mirrors .node doc') (hv : Copies doc doc' .request v w) :
    doc.SameBody doc' v w where
  isNull := Value.isNull_of_respells hv.respells
  check := by
    rw [Fields.optionalMapping, Fields.optionalMapping, Value.isNull_of_respells hv.respells,
      hv.mapping_eq]
  isReference := by
    have hrel := hv.reference? rfl
    unfold Value.isReference
    generalize v.reference? = pointer, w.reference? = pointer' at hrel
    cases hrel <;> rfl
  media := by
    have hentry := Copies.first? (hv.get (by decide : "content" ≠ "type"))
    generalize (v.get "content").first? = entry, (w.get "content").first? = entry' at hentry
    cases hentry with
    | none => exact .none
    | some he =>
        exact .some ⟨he.1, h.settle Role.node_refines_body rfl
          (he.2.get (by decide : "schema" ≠ "type"))⟩

theorem sameNode (h : doc.Mirrors .node doc') (hv : Copies doc doc' .operation v w) :
    doc.SameNode doc' v w where
  field name hname := by
    have halike {name : String} (hname : name ≠ "type")
        (hfixed : Role.operation.field (.str name) = .fixed) : Alike (v.get name) (w.get name) :=
      Copies.alike (hfixed ▸ hv.get hname)
    simp only [List.mem_cons, List.not_mem_nil, or_false] at hname
    rcases hname with rfl | rfl | rfl | rfl | rfl
    all_goals exact halike (by decide) rfl
  parameters := parameterNodes h (hv.get (by decide : "parameters" ≠ "type"))
  body := sameBody h (hv.get (by decide : "requestBody" ≠ "type"))
  responses := (Copies.entriesOrNone (hv.get (by decide : "responses" ≠ "type"))).mono
    fun _ _ hes => hes.imp fun _ _ he => ⟨he.1, h.settle_node he.2⟩

theorem field_method {k : String} {m : Method} (hk : Method.ofKey? k = some m) :
    Role.path.field (.str k) = .operation := by
  have hne : k ≠ "parameters" := by
    rintro rfl
    rw [show Method.ofKey? "parameters" = none by decide] at hk
    cases hk
  simp [Role.field, Role.named, hne, hk]

theorem samePath (h : doc.Mirrors .node doc') (hv : Copies doc doc' .path v w) :
    doc.SamePath doc' v w where
  parameters := parameterNodes h (hv.get (by decide : "parameters" ≠ "type"))
  entries := by
    cases v with
    | map origin es =>
        obtain ⟨origin', fs, rfl, hes⟩ := hv.exists_of_map fun _ => rfl
        refine .some (hes.imp fun e f hef => ⟨hef.1, fun k m hk hm => ?_⟩)
        have hnode := hef.2
        rw [hk, field_method hm] at hnode
        exact ⟨hnode.isMap, hnode.sameNode h⟩
    | _ =>
        have hw := hv.isMap
        cases w with
        | map => cases hw
        | _ => exact .none

end Copies

namespace Respells

theorem sameParts (h : doc.Respells Role.readsLists doc') : doc.SameParts doc' where
  information := (h.copies_root.get (by decide : "info" ≠ "type")).alike
  servers := (h.copies_root.get (by decide : "servers" ≠ "type")).alike
  paths := (Copies.entriesOrNone (h.copies_root.get (by decide : "paths" ≠ "type"))).mono
    fun _ _ hes => hes.imp fun _ _ he => ⟨he.1, he.2.samePath h.mirrors⟩
  kind := by
    have hcomponents := h.copies_root.get (by decide : "components" ≠ "type")
    rw [hcomponents.isMap, Value.isFilled_of_respells hcomponents.respells]
  schemes := h.schemes
  check := h.copies_root.mapping_eq _ _

/-- Both documents declare the same version. -/
theorem version_eq (h : doc.Respells Role.readsLists doc') :
    Document.version doc'.root = Document.version doc.root := by
  have hopenapi := (h.copies_root.get (by decide : "openapi" ≠ "type")).alike
  have hswagger := h.copies_root.get? (by decide : "swagger" ≠ "type")
  unfold Document.version
  generalize doc.root.get? "swagger" = x, doc'.root.get? "swagger" = y at hswagger
  cases hswagger with
  | none =>
      dsimp only
      rw [hopenapi.isNull, hopenapi.text]
  | some hxy =>
      dsimp only
      rw [(Copies.alike hxy).text]

end Respells

end Document

namespace Library

/-- The library of a document, if it declares a version that can be used. -/
def ofRoot (doc : Document) (s : Settings) : Except Fault Library := do
  ofDocument doc (← Document.version doc.root) s

/-- A document and one in which types are lists with `null` have the same library, or both have
none, as long as the types of items that properties describe in place, and of responses that are
lists of entities, stay as they are. -/
theorem matches_of_respells {doc doc' : Document} (h : doc.Respells Role.readsLists doc')
    (s : Settings) :
    Matches (fun l l' => l'.bare = l.bare) (ofRoot doc s) (ofRoot doc' s) := by
  refine (matches_of_eq h.version_eq).bind fun version _ hversion => ?_
  subst hversion
  refine (Description.matches_of_sameParts h.sameParts _).bind ?_
  rintro d d' ⟨hd, rfl, rfl⟩
  exact ofDescription_matches hd h.mirrors s

/-- A document that declares how pets are listed and made, with a way to write types, and with a
type for the tags of a pet and one for the list of pets. -/
def petStore (spell : String → Value) (tag pets : Value) : Document :=
  .ofValue <| .map 0 [
    (.str "openapi", .str "3.1.0"),
    (.str "info", .map 1 [(.str "title", .str "Pets"), (.str "version", .str "1")]),
    (.str "paths", .map 2 [(.str "/pets", .map 3 [
      (.str "get", .map 4 [
        (.str "operationId", .str "listPets"), (.str "tags", .seq [.str "Manager:Pets"]),
        (.str "parameters", .seq [.map 5 [(.str "name", .str "limit"), (.str "in", .str "query"),
          (.str "schema", .map 6 [(.str "type", spell "integer")])]]),
        (.str "responses", .map 7 [(.str "200", .map 8 [(.str "content", .map 9 [
          (.str "application/json", .map 10 [(.str "schema", .map 11 [(.str "type", pets),
            (.str "items", Schema.referenceTo (.str "#/components/schemas/Pet"))])])])])])]),
      (.str "post", .map 12 [
        (.str "operationId", .str "createPet"), (.str "tags", .seq [.str "Manager:Pets"]),
        (.str "requestBody", .map 13 [(.str "content", .map 14 [(.str "application/json", .map 15 [
          (.str "schema", .map 16 [(.str "type", spell "object"), (.str "properties", .map 17 [
            (.str "name", .map 18 [(.str "type", spell "string")]),
            (.str "tags", .map 19 [(.str "type", spell "array"),
              (.str "items", .map 20 [(.str "type", spell "string")])])])])])])]),
        (.str "responses", .map 21 [(.str "201", .map 22 [(.str "content", .map 23 [
          (.str "application/json", .map 24 [(.str "schema", .map 25 [
            (.str "type", spell "object")])])])])])])])]),
    (.str "components", .map 26 [(.str "schemas", .map 27 [
      (.str "Pet", .map 28 [(.str "type", spell "object"), (.str "properties", .map 29 [
        (.str "name", Schema.referenceTo (.str "#/components/schemas/Name")),
        (.str "age", .map 30 [(.str "type", spell "integer")]),
        (.str "tags", .map 31 [(.str "type", spell "array"),
          (.str "items", .map 32 [(.str "type", tag)])])])]),
      (.str "Name", .map 33 [(.str "type", spell "string")])])])]

/-- A type or `null`. -/
def typeOrNull (type : String) : Value := .seq [.str type, .str "null"]

/-- The document in which every type is a text. -/
def plainPetStore : Document := petStore .str (.str "string") (.str "array")

/-- The resources with their properties, and the managers with the types that their methods
return. -/
def typing (l : Library) : List (String × List Property) × List (String × List (Option String)) :=
  (l.resources.map fun c => (c.name, c.properties),
    l.managers.map fun c => (c.name, c.routes.map Route.returnType))

theorem typing_bare (l : Library) : typing l.bare = typing l := by
  unfold typing bare
  rw [List.map_map, List.map_map]
  refine congrArg (Prod.mk _) (List.map_congr_left fun c _ => congrArg (Prod.mk _) ?_)
  exact List.map_map

theorem typing_eq_of_matches {x y : Except Fault Library}
    (h : Matches (fun l l' => l'.bare = l.bare) x y) :
    y.toOption.map typing = x.toOption.map typing :=
  h.map_toOption_eq fun l l' hbare => by rw [← typing_bare, hbare, typing_bare]

/-- There are no security schemes, and all pointers lead to component schemas. -/
theorem respells_petStore {free : Role → Value → Bool} {spell : String → Value} {tag pets : Value}
    (hroot : plainPetStore.root.respells free .root (petStore spell tag pets).root)
    (hapart : ∀ s ∈ plainPetStore.pointers, ∀ t ∈ plainPetStore.pointers,
      plainPetStore.target? s = plainPetStore.target? t ↔
        (petStore spell tag pets).target? s = (petStore spell tag pets).target? t) :
    plainPetStore.Respells free (petStore spell tag pets) where
  root := hroot
  pointers := by decide +kernel
  apart := hapart
  schemes := .ok .nil

/-- With `null` beside all other types, of component schemas, properties, parameters, bodies with
their fields and the items of these, and responses, both documents have the same library, and it
has a class for pets, with methods that list and make them. -/
theorem matches_petStore : ∃ l l', ofRoot plainPetStore {} = .ok l ∧
    ofRoot (petStore typeOrNull (.str "string") (.str "array")) {} = .ok l' ∧ l'.bare = l.bare ∧
    l.resources.map (·.name) = ["Pet"] ∧ (typing l).2 = [("Pets", [some "Pet", none])] := by
  have hrespells : plainPetStore.Respells Role.readsLists
      (petStore typeOrNull (.str "string") (.str "array")) :=
    respells_petStore (by decide +kernel) (by decide +kernel)
  have hmatches := matches_of_respells hrespells {}
  have htyping : (ofRoot plainPetStore {}).toOption.map
      (fun l => (l.resources.map (·.name), (typing l).2)) =
        some (["Pet"], [("Pets", [some "Pet", none])]) := by
    decide +kernel
  obtain ⟨l, hl, htyping⟩ := Option.map_eq_some_iff.1 htyping
  obtain ⟨l', hl', hbare⟩ := hmatches.exists_of_ok (toOption_eq_some.1 hl)
  obtain ⟨hnames, hreturns⟩ := Prod.mk.inj htyping
  exact ⟨l, l', toOption_eq_some.1 hl, hl', hbare, hnames, hreturns⟩

/-- Neither type can be written as a list with `null`.  The items of a property lose their type, and
a list of pets is no longer one. -/
theorem not_matches_of_respells :
    (plainPetStore.Respells (fun r _ => r.isSchema)
        (petStore .str (typeOrNull "string") (.str "array")) ∧
      ¬ Matches (fun l l' => l'.bare = l.bare) (ofRoot plainPetStore {})
        (ofRoot (petStore .str (typeOrNull "string") (.str "array")) {})) ∧
    (plainPetStore.Respells (fun r _ => r.isSchema)
        (petStore .str (.str "string") (typeOrNull "array")) ∧
      ¬ Matches (fun l l' => l'.bare = l.bare) (ofRoot plainPetStore {})
        (ofRoot (petStore .str (.str "string") (typeOrNull "array")) {})) := by
  refine ⟨⟨?tag, fun h => ?noItems⟩, ⟨?pets, fun h => ?noEntity⟩⟩
  case tag => exact respells_petStore (by decide +kernel) (by decide +kernel)
  case noItems => exact absurd (typing_eq_of_matches h) (by decide +kernel)
  case pets => exact respells_petStore (by decide +kernel) (by decide +kernel)
  case noEntity => exact absurd (typing_eq_of_matches h) (by decide +kernel)

end Library

end OpenApiClient
