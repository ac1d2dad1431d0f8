import OpenApiClient.Proofs.Designation
import OpenApiClient.Proofs.Substitution

/-!
# Transparency of references

References are looked through: whether a node stands below the paths of a document or is a
component to which a chain of references leads makes no difference to the library of the document,
as long as nothing else in the document depends on the components that are added for it.
-/

namespace OpenApiClient

open Walk

open Value (Alike Entrywise Itemwise)

namespace Pointer

/-- Whether a pointer leads to a place or into it. -/
def enters (place : List String) (s : String) : Bool :=
  (segments? s).any (place.isPrefixOf ·)

/-- Whether a pointer leads to a place or to something around it. -/
def surrounds (place : List String) (s : String) : Bool :=
  (segments? s).any (·.isPrefixOf place)

end Pointer

theorem Value.find?_append (key : Scalar) (es fs : Value.Entries) :
    find? key (es ++ fs) = (find? key es).or (find? key fs) := by
  induction es with
  | nil => rfl
  | cons e es ih =>
      obtain ⟨k, v⟩ := e
      rw [List.cons_append, find?, find?, ih]
      split <;> rfl

theorem Value.find?_eq_none {s : String} {es : Entries} (h : ∀ e ∈ es, e.1 ≠ .str s) :
    find? (.str s) es = none := by
  induction es with
  | nil => rfl
  | cons e es ih =>
      obtain ⟨k, v⟩ := e
      rw [find?, if_neg, ih fun e he => h e (List.mem_cons_of_mem _ he)]
      exact fun hk => h (k, v) List.mem_cons_self (Scalar.eq_of_same_str hk)

/-- A mapping without the entry under a key. -/
def Value.apartFrom (key : String) : Value → Value
  | .map origin es => .map origin (es.filter (·.1 ≠ .str key))
  | v => v

namespace Document

/-- The other document has references in place of some nodes below the paths, and has components
added to which they lead, at places to which nothing in the document itself leads.  Its other
components are the same, with origins renamed. -/
structure Extracts (allowed : Value → Bool) (ρ : Nat → Nat) (added : List (List String))
    (doc doc' : Document) : Prop where
  injective : Function.Injective ρ
  root : Entrywise (doc'.RootField allowed) (doc.root.apartFrom "components")
    (doc'.root.apartFrom "components")
  kind : ((doc'.root.get "components").isMap || !(doc'.root.get "components").isFilled) =
    ((doc.root.get "components").isMap || !(doc.root.get "components").isFilled)
  keeps (s : String)
    (h : ∀ place ∈ added, Pointer.enters place s = false ∧ Pointer.surrounds place s = false) :
    Matches (fun x y => y = (x.1, x.2.rename ρ)) (doc.resolve (.str s)) (doc'.resolve (.str s))
  unreferenced (s : String) (h : s ∈ doc.pointers) (place : List String) (hp : place ∈ added) :
    Pointer.enters place s = false
  schemes (place : List String) (h : place ∈ added) :
    place ≠ [] ∧ place.head? ≠ some "securitySchemes"

variable {allowed : Value → Bool} {ρ : Nat → Nat} {added : List (List String)}
  {doc doc' : Document} {v w : Value}

theorem get?_apartFrom {name key : String} (h : name ≠ key) (v : Value) :
    (v.apartFrom key).get? name = v.get? name := by
  cases v with
  | map origin es =>
      rw [Value.apartFrom, Value.get?_map, Value.get?_map]
      induction es with
      | nil => rfl
      | cons e es ih =>
          obtain ⟨k, x⟩ := e
          rw [List.filter_cons]
          split
          · rw [Value.find?, Value.find?, ih]
          · next hk =>
              have hk : k = .str key := by simpa using hk
              rw [ih, Value.find?, if_neg]
              rw [hk]
              simpa using Ne.symm h
  | _ => rfl

/-- An entry under a text is nothing to report. -/
theorem mapping_apartFrom (field key : String) (place : List IssuePlace) (v : Value) :
    Fields.mapping field place (v.apartFrom key) = Fields.mapping field place v := by
  cases v with
  | map origin es =>
      unfold Value.apartFrom Fields.mapping
      dsimp only
      induction es with
      | nil => rfl
      | cons e es ih =>
          rw [List.filter_cons]
          split
          · rw [List.map_cons, List.map_cons, List.filterMap_cons, List.filterMap_cons, ih]
          · next hk =>
              have hk : e.1 = .str key := by simpa using hk
              rw [ih, List.map_cons, hk]
              rfl
  | _ => rfl

theorem rootField_of_alike (k : Scalar) (v w : Value) (h : Alike v w) :
    doc'.RootField allowed k v w := by
  unfold RootField
  split
  · exact Value.entrywise_of_alike
      (fun _ _ _ h => Value.entrywise_of_alike pathField_of_alike h) h
  · exact h

theorem rootField_of_ne {name : String} (h : name ≠ "paths") :
    doc'.RootField allowed (.str name) = Alike := by
  simp [RootField, h]

theorem rootField_paths :
    doc'.RootField allowed (.str "paths") = Entrywise fun _ => Entrywise (doc'.PathField allowed) :=
  if_pos rfl

theorem toOption_resolve_component (doc : Document) (name : String) :
    (doc.resolve (.str (Pointer.ofSegments [name]))).toOption =
      ((doc.root.get "components").get? name).map fun v => (name, v) := by
  rw [resolve_of_segments? (Pointer.segments?_ofSegments (List.cons_ne_nil _ _))]
  cases doc.root.get "components" with
  | map origin es =>
      rw [if_pos (show (Value.map origin es).isMap = true from rfl), Value.get?_map, Pointer.walk,
        Pointer.step?]
      cases Value.find? (.str name) es <;> rfl
  | _ => rfl

namespace Extracts

/-- The fields of both roots apart from the components relate. -/
theorem get (h : doc.Extracts allowed ρ added doc') (name : String) (hname : name ≠ "components") :
    Both doc doc' (doc'.RootField allowed (.str name)) (doc.root.get name)
      (doc'.root.get name) := by
  have hrel := h.root.get? name
  rw [get?_apartFrom hname, get?_apartFrom hname] at hrel
  refine ⟨?_, ?_, ?_⟩
  · unfold Value.get
    generalize doc.root.get? name = x, doc'.root.get? name = y at hrel
    cases hrel with
    | none => exact rootField_of_alike _ _ _ (Alike.refl _)
    | some hxy => exact hxy
  · rw [doc.pointers_eq]
    exact Value.pointers_get_subset _ _
  · rw [doc'.pointers_eq]
    exact Value.pointers_get_subset _ _

theorem alike (h : doc.Extracts allowed ρ added doc') (name : String) (hname : name ≠ "components")
    (hpaths : name ≠ "paths") : Alike (doc.root.get name) (doc'.root.get name) := by
  have hboth := h.get name hname
  rw [rootField_of_ne hpaths] at hboth
  exact hboth.rel

theorem leads (h : doc.Extracts allowed ρ added doc')
    (hsurrounds : ∀ s ∈ doc.pointers, ∀ place ∈ added, Pointer.surrounds place s = false)
    (s : String) (hs : s ∈ doc.pointers) :
    Matches (fun x y => y = (x.1, x.2.rename ρ)) (doc.resolve (.str s)) (doc'.resolve (.str s)) :=
  h.keeps s fun place hplace => ⟨h.unreferenced s hs place hplace, hsurrounds s hs place hplace⟩

theorem mirrors (h : doc.Extracts allowed ρ added doc')
    (hsurrounds : ∀ s ∈ doc.pointers, ∀ place ∈ added, Pointer.surrounds place s = false) :
    doc.Mirrors .fixed doc' where
  role := Role.fixed_refines _
  leads s hs := (h.leads hsurrounds s hs).mono fun x y hxy => by
    rw [hxy]
    exact ⟨rfl, Value.respells_of_alike (Value.alike_rename ρ x.2)⟩
  apart s t hs ht := by
    have htarget (s : String) (hs : s ∈ doc.pointers) :
        doc'.target? s = (doc.target? s).map (Value.rename ρ) := by
      unfold target?
      rw [Option.map_map]
      exact (h.leads hsurrounds s hs).map_toOption_eq fun x y hxy => by rw [hxy]; rfl
    rw [htarget s hs, htarget t ht]
    exact (Option.map_injective (Value.rename_injective h.injective)).eq_iff.symm

/-- The security schemes are copies: no component is added among them. -/
theorem copies_schemes (h : doc.Extracts allowed ρ added doc') :
    Copies doc doc' (.entries .fixed) ((doc.root.get "components").get "securitySchemes")
      ((doc'.root.get "components").get "securitySchemes") := by
  have hsegments : Pointer.segments? (Pointer.ofSegments ["securitySchemes"]) =
    some ["securitySchemes"] := Pointer.segments?_ofSegments (List.cons_ne_nil _ _)
  have hkeeps := h.keeps (Pointer.ofSegments ["securitySchemes"]) fun place hplace => by
    obtain ⟨hne, hhead⟩ := h.schemes place hplace
    unfold Pointer.enters Pointer.surrounds
    rw [hsegments]
    cases place with
    | nil => exact absurd rfl hne
    | cons segment rest =>
        have hsegment : segment ≠ "securitySchemes" := fun heq => hhead (congrArg some heq)
        simp [List.isPrefixOf, hsegment, Ne.symm hsegment]
  have hget? : ((doc'.root.get "components").get? "securitySchemes") =
      ((doc.root.get "components").get? "securitySchemes").map (Value.rename ρ) := by
    have hmap := hkeeps.map_toOption_eq (g := id) fun _ _ hxy => hxy
    rw [toOption_resolve_component, toOption_resolve_component, Option.map_id] at hmap
    cases hget : (doc.root.get "components").get? "securitySchemes" <;>
      cases hget' : (doc'.root.get "components").get? "securitySchemes" <;> simp_all
  have hrename : (doc'.root.get "components").get "securitySchemes" =
      ((doc.root.get "components").get "securitySchemes").rename ρ := by
    unfold Value.get at hget? ⊢
    rw [hget?]
    cases Value.get? _ "securitySchemes" with
    | none => exact (Value.rename_scalar ρ .null).symm
    | some v => rfl
  refine .of_alike (hrename ▸ Value.alike_rename ρ _) fun s hs => ⟨?_, ?_⟩
  · rw [doc.pointers_eq]
    exact Value.pointers_get_subset _ _ (Value.pointers_get_subset _ _ hs)
  · rw [doc'.pointers_eq]
    refine Value.pointers_get_subset _ "components"
      (Value.pointers_get_subset _ "securitySchemes" ?_)
    rwa [hrename, Value.pointers_rename]

end Extracts

end Document

/-- The parts of both documents are read alike. -/
theorem Document.Extracts.sameParts {ρ : Nat → Nat} {added : List (List String)}
    {doc doc' : Document} (h : doc.Extracts Value.hasTextKeys ρ added doc')
    (hmirrors : doc.Mirrors .fixed doc') : doc.SameParts doc' where
  information := h.alike "info" (by decide) (by decide)
  servers := h.alike "servers" (by decide) (by decide)
  paths := by
    have hpaths := h.get "paths" (by decide)
    rw [Document.rootField_paths] at hpaths
    exact hpaths.entriesOrNone.mono fun _ _ hes => hes.imp fun _ _ he =>
      ⟨he.1, he.2.samePath hmirrors⟩
  kind := h.kind
  schemes := h.copies_schemes.entriesOrNone.mono fun _ _ hes => hes.imp fun _ _ he =>
    ⟨he.1, (hmirrors.settle (.refl _) rfl he.2).mono fun _ _ hvw => hvw.alike⟩
  check := by
    rw [← Document.mapping_apartFrom _ "components", h.root.mapping_eq, Document.mapping_apartFrom]

/-- A description is read from both documents alike. -/
theorem Description.ofDocument_matches {ρ : Nat → Nat} {added : List (List String)}
    {doc doc' : Document} (h : doc.Extracts Value.hasTextKeys ρ added doc')
    (hmirrors : doc.Mirrors .fixed doc') (version : String) :
    Matches (fun d d' => d.Mirrors d' ∧ d.document = doc ∧ d'.document = doc')
      (ofDocument doc version) (ofDocument doc' version) :=
  matches_of_sameParts (h.sameParts hmirrors) version

namespace Document

/-- Components added under a name that has none yet change nothing else. -/
theorem keeps_of_shared {doc doc' : Document} {origin origin' : Nat} {es : Value.Entries}
    {name : String} {shared : List (String × Value)} (hshared : shared ≠ [])
    (hname : Value.find? (.str name) es = none)
    (hdoc : doc.root.get "components" =
      .map origin (es ++ [(Scalar.str name, Value.map origin' [])]))
    (hdoc' : doc'.root.get "components" = .map origin
      (es ++ [(Scalar.str name, Value.map origin' (shared.map fun e => (.str e.1, e.2)))]))
    (s : String)
    (h : ∀ place ∈ shared.map (fun e => [name, e.1]),
      Pointer.enters place s = false ∧ Pointer.surrounds place s = false) :
    Matches (fun x y => y = (x.1, x.2.rename id)) (doc.resolve (.str s))
      (doc'.resolve (.str s)) := by
  obtain ⟨e, rest, rfl⟩ := List.exists_cons_of_ne_nil hshared
  have hfirst := (h [name, e.1] (by simp)).2
  cases hs : Pointer.segments? s with
  | none =>
      unfold resolve
      dsimp only
      rw [hs]
      exact .error _ _
  | some segments =>
      have hplaces (place : List String) (hplace : place ∈ (e :: rest).map fun e => [name, e.1]) :
          place.isPrefixOf segments = false := by
        have henters := (h place hplace).1
        rwa [Pointer.enters, hs] at henters
      rw [Pointer.surrounds, hs] at hfirst
      rw [resolve_of_segments? hs, resolve_of_segments? hs, hdoc, hdoc', if_pos (by rfl),
        if_pos (by rfl)]
      refine Matches.map (R := fun v w => w = v) ?_ fun v w hvw => by rw [hvw, Value.rename_id]
      cases segments with
      | nil => simp at hfirst
      | cons x segments =>
          rw [Pointer.walk, Pointer.walk, Pointer.step?, Pointer.step?, Value.find?_append,
            Value.find?_append]
          by_cases hx : x = name
          -- Below the name there are the added components only, and the pointer leads to none.
          · subst hx
            cases segments with
            | nil => simp [List.isPrefixOf] at hfirst
            | cons y segments =>
                have hy : Value.find? (.str y)
                    ((e :: rest).map fun e => (Scalar.str e.1, e.2)) = none := by
                  refine Value.find?_eq_none fun f hf => ?_
                  obtain ⟨e', he', rfl⟩ := List.mem_map.1 hf
                  intro heq
                  obtain rfl : e'.1 = y := by simpa using heq
                  have hpre := hplaces _ (List.mem_map_of_mem he')
                  simp [List.isPrefixOf] at hpre
                have hself (v : Value) : Value.find? (.str x) [(Scalar.str x, v)] = some v := by
                  simp [Value.find?]
                rw [hname, hself, hself, Option.none_or, Option.none_or]
                dsimp only
                rw [Pointer.walk, Pointer.walk, Pointer.step?, Pointer.step?, hy]
                exact .error _ _
          · have hother (v : Value) : Value.find? (.str x) [(Scalar.str name, v)] = none := by
              simp [Value.find?, Ne.symm hx]
            rw [hother, hother, Option.or_none]
            cases Value.find? (.str x) es with
            | none => exact .error _ _
            | some v => exact matches_of_eq rfl

end Document

namespace Library

/-- The library of a document whose version is known. -/
def ofDocument (doc : Document) (version : String) (s : Settings) : Except Fault Library := do
  let d ← Description.ofDocument doc version
  (ofDescription d s).1

/-- A document and one with references in place of some of its nodes have the same library, or both
have none: if every parameter that is replaced has texts as keys, and no pointer of the document
leads to something around an added component. -/
theorem matches_of_extracts {ρ : Nat → Nat} {added : List (List String)} {doc doc' : Document}
    (h : doc.Extracts Value.hasTextKeys ρ added doc')
    (hsurrounds : ∀ s ∈ doc.pointers, ∀ place ∈ added, Pointer.surrounds place s = false)
    (version : String) (s : Settings) :
    Matches (fun l l' => l'.bare = l.bare) (ofDocument doc version s)
      (ofDocument doc' version s) := by
  have hmirrors := h.mirrors hsurrounds
  refine (Description.ofDocument_matches h hmirrors version).bind ?_
  rintro d d' ⟨hd, rfl, rfl⟩
  exact ofDescription_matches hd hmirrors s

/-- A document that declares how pets are made: a path with a parameter, and on it an operation with
a parameter, a body and a response.  Some components are shared. -/
def petCreation (limit flag pet created : Value) (shared : List (String × Value)) : Document :=
  .ofValue <| .map 0 [
    (.str "openapi", .str "3.0.0"),
    (.str "info", .map 1 [(.str "title", .str "Pets"), (.str "version", .str "1")]),
    (.str "paths", .map 2 [(.str "/pets", .map 3 [(.str "parameters", .seq [limit]),
      (.str "post", .map 4 [
        (.str "operationId", .str "createPet"), (.str "tags", .seq [.str "Manager:Pets"]),
        (.str "parameters", .seq [.map 5 [(.str "name", .str "dry"), (.str "in", .str "query"),
          (.str "schema", flag)]]),
        (.str "requestBody", .map 6 [(.str "content", .map 7 [(.str "application/json", .map 8 [
          (.str "schema", pet)])])]),
        (.str "responses", .map 9 [(.str "201", created)])])])]),
    (.str "components", .map 10 ([(Scalar.str "schemas", Value.map 11 [(.str "Pet", .map 12 [
        (.str "type", .str "object"), (.str "properties", .map 13 [(.str "name", .map 14 [
          (.str "type", .str "string")])])])])] ++
      [(Scalar.str "shared", Value.map 15 (shared.map fun e => (.str e.1, e.2)))]))]

/-- A reference to a shared component. -/
def toShared (name : String) : Value :=
  Schema.referenceTo (.str (Pointer.ofSegments ["shared", name]))

/-- The limit of a list, in the query. -/
def limitParameter (more : Value.Entries) : Value :=
  .map 20 (([(.str "name", .str "limit"), (.str "in", .str "query"),
    (.str "schema", .map 21 [(.str "type", .str "integer")])] : Value.Entries) ++ more)

/-- A truth value. -/
def flagSchema (more : Value.Entries) : Value :=
  .map 22 (([(.str "type", .str "boolean")] : Value.Entries) ++ more)

/-- The fields of a new pet. -/
def petSchema : Value :=
  .map 23 [(.str "type", .str "object"), (.str "required", .seq [.str "name"]),
    (.str "properties", .map 24 [(.str "name", .map 25 [(.str "type", .str "string")])])]

/-- A response with what a pointer leads to. -/
def createdResponse (pointer : String) : Value :=
  .map 26 [(.str "content", .map 27 [(.str "application/json", .map 28 [
    (.str "schema", Schema.referenceTo (.str pointer))])])]

theorem entrywise_petCreation {doc' : Document} {allowed : Value → Bool}
    {limit flag pet created limit' flag' pet' created' : Value}
    (hlimit : doc'.ParameterSlot allowed limit limit') (hflag : doc'.Slot flag flag')
    (hpet : doc'.Slot pet pet') (hcreated : doc'.Slot created created')
    (shared shared' : List (String × Value)) :
    Entrywise (doc'.RootField allowed)
      ((petCreation limit flag pet created shared).root.apartFrom "components")
      ((petCreation limit' flag' pet' created' shared').root.apartFrom "components") := by
  have hpost : Method.ofKey? "post" = some .post := Method.ofKey?_key .post
  have hdry : doc'.ParameterSlot allowed
      (.map 5 [(.str "name", .str "dry"), (.str "in", .str "query"), (.str "schema", flag)])
      (.map 5 [(.str "name", .str "dry"), (.str "in", .str "query"), (.str "schema", flag')]) :=
    .inl (by simp [Entrywise, Document.SchemaField, hflag, Alike.refl])
  simp [petCreation, Value.apartFrom, Entrywise, Itemwise, Document.RootField, Document.PathField,
    Document.ParameterSlots, Document.OperationField, Document.BodyField, Document.SchemaField,
    hpost, hlimit, hdry, hpet, hcreated, Alike.refl]

/-- The document with references to shared components extracts these from the one without. -/
theorem extracts_petCreation {allowed : Value → Bool} {limit flag pet created : Value}
    {limit' flag' pet' created' : Value} (shared : List (String × Value)) (hshared : shared ≠ [])
    (hlimit : (petCreation limit' flag' pet' created' shared).ParameterSlot allowed limit limit')
    (hflag : (petCreation limit' flag' pet' created' shared).Slot flag flag')
    (hpet : (petCreation limit' flag' pet' created' shared).Slot pet pet')
    (hcreated : (petCreation limit' flag' pet' created' shared).Slot created created')
    (hunreferenced : ∀ s ∈ (petCreation limit flag pet created []).pointers,
      ∀ place ∈ shared.map (fun e => ["shared", e.1]), Pointer.enters place s = false) :
    (petCreation limit flag pet created []).Extracts allowed id
      (shared.map fun e => ["shared", e.1])
      (petCreation limit' flag' pet' created' shared) where
  injective := Function.injective_id
  root := entrywise_petCreation hlimit hflag hpet hcreated [] shared
  kind := rfl
  keeps s h := Document.keeps_of_shared hshared (by decide) rfl rfl s h
  unreferenced s hs place hplace := hunreferenced s hs place hplace
  schemes place hplace := by
    obtain ⟨e, -, rfl⟩ := List.mem_map.1 hplace
    exact ⟨List.cons_ne_nil _ _, by simp⟩

theorem replaces_toShared {doc' : Document} {v : Value} {name : String}
    (hv : v.isReference = false) (h : (doc'.settle (toShared name)).toOption = some v) :
    doc'.Replaces v (toShared name) :=
  ⟨hv, ⟨0, _, rfl⟩, v, toOption_eq_some.1 h, Alike.refl v⟩

/-- The document in which everything stands where it belongs. -/
def petDocument : Document :=
  petCreation (limitParameter []) (flagSchema []) petSchema
    (createdResponse "#/components/schemas/Pet") []

/-- What may stand among the components instead; a chain of two references leads to the limit. -/
def petParts : List (String × Value) :=
  [("Limit", toShared "Bound"), ("Bound", limitParameter []), ("Flag", flagSchema []),
    ("NewPet", petSchema), ("Created", createdResponse "#/components/schemas/Pet")]

/-- The document with a parameter, the schema of another one, the schema of the body and the
response among the components. -/
def petDocumentInParts : Document :=
  petCreation (toShared "Limit") (toShared "Flag") (toShared "NewPet") (toShared "Created") petParts

theorem extracts_petDocument : petDocument.Extracts Value.hasTextKeys id
    (petParts.map fun e => ["shared", e.1]) petDocumentInParts :=
  extracts_petCreation petParts (List.cons_ne_nil _ _)
    (.inr ⟨by decide +kernel, replaces_toShared (by decide +kernel) (by decide +kernel)⟩)
    (.inr (replaces_toShared (by decide +kernel) (by decide +kernel)))
    (.inr (replaces_toShared (by decide +kernel) (by decide +kernel)))
    (.inr (replaces_toShared (by decide +kernel) (by decide +kernel))) (by decide +kernel)

/-- Both documents have the same library, and it has a class for pets. -/
theorem matches_petDocument : ∃ l l', ofDocument petDocument "3.0.0" {} = .ok l ∧
    ofDocument petDocumentInParts "3.0.0" {} = .ok l' ∧ l'.bare = l.bare ∧
    l.resources.map (·.name) = ["Pet"] := by
  have hmatches := matches_of_extracts extracts_petDocument (by decide +kernel) "3.0.0" {}
  have hnames : (ofDocument petDocument "3.0.0" {}).toOption.map
      (fun l => l.resources.map (·.name)) = some ["Pet"] := by
    decide +kernel
  obtain ⟨l, hl, hnames⟩ := Option.map_eq_some_iff.1 hnames
  obtain ⟨l', hl', hbare⟩ := hmatches.exists_of_ok (toOption_eq_some.1 hl)
  exact ⟨l, l', toOption_eq_some.1 hl, hl', hbare, hnames⟩

/-- A limit of which not all keys are texts. -/
def numberedLimit : Value := limitParameter [(.int 1, .str "first")]

/-- The document with such a limit where it belongs, or among the components. -/
def numberedDocument (limit : Value) (shared : List (String × Value)) : Document :=
  petCreation limit (flagSchema []) petSchema (createdResponse "#/components/schemas/Pet") shared

/-- A truth value with a reason. -/
def reasonedFlag : Value :=
  flagSchema [(.str "reason", .map 29 [(.str "type", .str "string")])]

/-- The document with such a truth value where it belongs, or among the components; its response is
the mapping of all shared components. -/
def reasonedDocument (flag : Value) (shared : List (String × Value)) : Document :=
  petCreation (limitParameter []) flag petSchema (createdResponse "#/components/shared") shared

/-- The resources and the names of their properties. -/
def propertyNames (l : Library) : List (String × List String) :=
  l.resources.map fun c => (c.name, c.properties.map (·.name))

theorem propertyNames_bare (l : Library) : propertyNames l.bare = propertyNames l := by
  unfold propertyNames bare
  rw [List.map_map]
  rfl

/-- Neither condition can be left out.  A parameter with a key that is no text is refused where it
stands, but not where a reference leads to it; and a schema that is the mapping of all shared
components gains a property once one of them is called `properties`. -/
theorem not_matches_of_extracts :
    ((numberedDocument numberedLimit []).Extracts Value.isMap id [["shared", "Limit"]]
        (numberedDocument (toShared "Limit") [("Limit", numberedLimit)]) ∧
      ¬ Matches (fun l l' => l'.bare = l.bare)
        (ofDocument (numberedDocument numberedLimit []) "3.0.0" {})
        (ofDocument (numberedDocument (toShared "Limit") [("Limit", numberedLimit)]) "3.0.0" {})) ∧
    ((reasonedDocument reasonedFlag []).Extracts Value.hasTextKeys id [["shared", "properties"]]
        (reasonedDocument (toShared "properties") [("properties", reasonedFlag)]) ∧
      ¬ Matches (fun l l' => l'.bare = l.bare)
        (ofDocument (reasonedDocument reasonedFlag []) "3.0.0" {})
        (ofDocument (reasonedDocument (toShared "properties") [("properties", reasonedFlag)])
          "3.0.0" {})) := by
  refine ⟨⟨?keys, fun h => ?refused⟩, ⟨?around, fun h => ?gained⟩⟩
  case keys =>
    exact extracts_petCreation [("Limit", numberedLimit)] (List.cons_ne_nil _ _)
      (.inr ⟨by decide +kernel, replaces_toShared (by decide +kernel) (by decide +kernel)⟩)
      (.inl (Alike.refl _)) (.inl (Alike.refl _)) (.inl (Alike.refl _)) (by decide +kernel)
  case refused =>
    have hsame := h.map_toOption_eq (f := fun _ => ()) (g := fun _ => ()) fun _ _ _ => rfl
    have hnone : (ofDocument (numberedDocument numberedLimit []) "3.0.0" {}).toOption.map
        (fun _ => ()) = none := by
      decide +kernel
    have hsome : (ofDocument (numberedDocument (toShared "Limit") [("Limit", numberedLimit)])
        "3.0.0" {}).toOption.map (fun _ => ()) = some () := by
      decide +kernel
    rw [hnone, hsome] at hsame
    cases hsame
  case around =>
    exact extracts_petCreation [("properties", reasonedFlag)] (List.cons_ne_nil _ _)
      (Document.parameterSlot_of_alike _ _ (Alike.refl _))
      (.inr (replaces_toShared (by decide +kernel) (by decide +kernel)))
      (.inl (Alike.refl _)) (.inl (Alike.refl _)) (by decide +kernel)
  case gained =>
    have hsame := h.map_toOption_eq (f := propertyNames) (g := propertyNames) fun l l' hbare => by
      rw [← propertyNames_bare, hbare, propertyNames_bare]
    have hbefore : (ofDocument (reasonedDocument reasonedFlag []) "3.0.0" {}).toOption.map
        propertyNames = some [("Shared", [])] := by
      decide +kernel
    have hafter : (ofDocument (reasonedDocument (toShared "properties")
        [("properties", reasonedFlag)]) "3.0.0" {}).toOption.map propertyNames =
          some [("Shared", ["reason"])] := by
      decide +kernel
    rw [hbefore, hafter] at hsame
    exact absurd hsame (by decide)

end Library

end OpenApiClient
