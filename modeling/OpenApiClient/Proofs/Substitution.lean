import OpenApiClient.Proofs.MirroredReading

/-!
# References in place of nodes

A document may be written with components in place of some of its nodes: where such a node stood,
there is a reference, and the chain that starts there ends at a component alike.  What stands below
the paths of two such documents relates node by node; entries stand under the same keys, in the
same order.

Parameters and bodies that relate in this way are the same for whoever looks through references.
Only the keys of a parameter are looked at where it stands, so that a parameter whose keys are no
texts cannot be told from any other one once it has become a component.
-/

namespace OpenApiClient

open Walk

open Value (Alike)

open Document

variable {doc doc' : Document} {v w : Value}

namespace Value

/-- Mappings have the same keys in the same order, and their values relate as the keys say; other
values are alike. -/
def Entrywise (R : Scalar → Value → Value → Prop) (v w : Value) : Prop :=
  match v, w with
  | .map _ es, .map _ fs => List.Forall₂ (fun e f => f.1 = e.1 ∧ R e.1 e.2 f.2) es fs
  | v, w => Alike v w

/-- Lists relate item by item; other values are alike. -/
def Itemwise (R : Value → Value → Prop) (v w : Value) : Prop :=
  match v, w with
  | .seq vs, .seq ws => List.Forall₂ R vs ws
  | v, w => Alike v w

/-- Whether a value is a mapping whose keys are texts. -/
def hasTextKeys : Value → Bool
  | .map _ es => es.all fun e => (Value.scalar e.1).text?.isSome
  | _ => false

variable {R : Scalar → Value → Value → Prop}

theorem entrywise_of_alike (hR : ∀ k v w, Alike v w → R k v w) (h : Alike v w) :
    Entrywise R v w := by
  cases v with
  | map origin es =>
      obtain ⟨origin', fs, rfl, hes⟩ := h.of_map
      exact hes.imp fun e f he => ⟨he.1, hR _ _ _ he.2⟩
  | _ => exact h

theorem itemwise_of_alike {R : Value → Value → Prop} (hR : ∀ v w, Alike v w → R v w)
    (h : Alike v w) : Itemwise R v w := by
  cases v with
  | seq vs =>
      obtain ⟨ws, rfl, hvs⟩ := h.of_seq
      exact hvs.imp hR
  | _ => exact h

namespace Entrywise

theorem of_map {origin : Nat} {es : Entries} (h : Entrywise R (.map origin es) w) :
    ∃ origin' fs, w = .map origin' fs ∧
      List.Forall₂ (fun e f => f.1 = e.1 ∧ R e.1 e.2 f.2) es fs := by
  cases w with
  | map origin' fs => exact ⟨origin', fs, rfl, h⟩
  | _ => exact absurd (Alike.isMap (v := .map origin es) h) (by simp [isMap])

theorem alike_of_not_map (h : Entrywise R v w) (hv : v.isMap = false) : Alike v w := by
  cases v with
  | map => cases hv
  | _ => exact h

theorem isMap (h : Entrywise R v w) : w.isMap = v.isMap := by
  cases v with
  | map =>
      obtain ⟨_, _, rfl, -⟩ := h.of_map
      rfl
  | _ => exact (h.alike_of_not_map rfl).isMap

theorem isFilled (h : Entrywise R v w) : w.isFilled = v.isFilled := by
  cases v with
  | map =>
      obtain ⟨_, fs, rfl, hes⟩ := h.of_map
      cases hes <;> rfl
  | _ => exact (h.alike_of_not_map rfl).isFilled

theorem isNull (h : Entrywise R v w) : w.isNull = v.isNull := by
  cases v with
  | map =>
      obtain ⟨_, fs, rfl, -⟩ := h.of_map
      rfl
  | _ => exact (h.alike_of_not_map rfl).isNull

theorem get? (h : Entrywise R v w) (name : String) :
    Option.Rel (R (.str name)) (v.get? name) (w.get? name) := by
  cases v with
  | map =>
      obtain ⟨_, fs, rfl, hes⟩ := h.of_map
      rw [get?_map, get?_map]
      clear h
      induction hes with
      | nil => exact .none
      | @cons e f _ _ he _ ih =>
          obtain ⟨k, x⟩ := e
          obtain ⟨k', y⟩ := f
          obtain ⟨rfl, hxy⟩ := he
          rw [find?, find?]
          split
          · next hk => exact .some (Scalar.eq_of_same_str hk ▸ hxy)
          · exact ih
  | _ =>
      have hw := h.isMap
      cases w with
      | map => cases hw
      | _ => exact .none

theorem mapping_eq (h : Entrywise R v w) (field : String) (place : List IssuePlace) :
    Fields.mapping field place w = Fields.mapping field place v := by
  cases v with
  | map =>
      obtain ⟨_, fs, rfl, hes⟩ := h.of_map
      rw [Fields.mapping, Fields.mapping, map_eq_of_forall₂ (fun _ _ he => he.1) hes]
  | _ =>
      have hw := h.isMap
      cases w with
      | map => cases hw
      | _ => rfl

end Entrywise

end Value

open Value (Entrywise Itemwise)

namespace Document

/-- A reference stands in place of a node that is no reference itself, and leads to a node alike. -/
structure Replaces (doc' : Document) (v w : Value) : Prop where
  inline : v.isReference = false
  reference : ∃ origin pointer, w = .map origin [(.str "$ref", .str pointer)]
  target : ∃ t, doc'.settle w = .ok t ∧ Alike v t

/-- A node stays as it is or is replaced. -/
def Slot (doc' : Document) (v w : Value) : Prop := Alike v w ∨ doc'.Replaces v w

/-- Fields of parameters and of media types: the schema may be replaced. -/
def SchemaField (doc' : Document) (k : Scalar) : Value → Value → Prop :=
  if k = .str "schema" then doc'.Slot else Alike

/-- A parameter: its schema may be replaced, and so may the parameter as a whole if that is
allowed. -/
def ParameterSlot (doc' : Document) (allowed : Value → Bool) (v w : Value) : Prop :=
  Entrywise doc'.SchemaField v w ∨ allowed v = true ∧ doc'.Replaces v w

/-- Parameters: any of them may be replaced. -/
def ParameterSlots (doc' : Document) (allowed : Value → Bool) : Value → Value → Prop :=
  Itemwise (doc'.ParameterSlot allowed)

/-- Fields of a request body: the schemas of its media types may be replaced. -/
def BodyField (doc' : Document) (k : Scalar) : Value → Value → Prop :=
  if k = .str "content" then Entrywise fun _ => Entrywise doc'.SchemaField else Alike

/-- Fields of an operation: parameters, responses and the schemas of the body may be replaced, and
so may anything in its callbacks, of which nothing is read. -/
def OperationField (doc' : Document) (allowed : Value → Bool) (k : Scalar) :
    Value → Value → Prop :=
  if k = .str "parameters" then doc'.ParameterSlots allowed
  else if k = .str "responses" then Entrywise fun _ => doc'.Slot
  else if k = .str "requestBody" then Entrywise doc'.BodyField
  else if k = .str "callbacks" then fun _ _ => True
  else Alike

/-- Fields of a path: its parameters and its operations. -/
def PathField (doc' : Document) (allowed : Value → Bool) : Scalar → Value → Value → Prop
  | .str k =>
    if k = "parameters" then doc'.ParameterSlots allowed
    else if (Method.ofKey? k).isSome then Entrywise (doc'.OperationField allowed)
    else Alike
  | _ => Alike

/-- Fields of a root apart from its components: the paths. -/
def RootField (doc' : Document) (allowed : Value → Bool) (k : Scalar) : Value → Value → Prop :=
  if k = .str "paths" then Entrywise fun _ => Entrywise (doc'.PathField allowed) else Alike

/-- Two nodes that relate, one of each document. -/
structure Both (doc doc' : Document) (R : Value → Value → Prop) (v w : Value) : Prop where
  rel : R v w
  left : v.pointers ⊆ doc.pointers
  right : w.pointers ⊆ doc'.pointers

variable {allowed : Value → Bool}

theorem slot_of_alike (h : Alike v w) : doc'.Slot v w := .inl h

theorem schemaField_of_alike (k : Scalar) (v w : Value) (h : Alike v w) :
    doc'.SchemaField k v w := by
  unfold SchemaField
  split
  · exact slot_of_alike h
  · exact h

theorem parameterSlot_of_alike (v w : Value) (h : Alike v w) : doc'.ParameterSlot allowed v w :=
  .inl (Value.entrywise_of_alike schemaField_of_alike h)

theorem parameterSlots_of_alike (h : Alike v w) : doc'.ParameterSlots allowed v w :=
  Value.itemwise_of_alike parameterSlot_of_alike h

theorem bodyField_of_alike (k : Scalar) (v w : Value) (h : Alike v w) : doc'.BodyField k v w := by
  unfold BodyField
  split
  · exact Value.entrywise_of_alike
      (fun _ _ _ h => Value.entrywise_of_alike schemaField_of_alike h) h
  · exact h

theorem operationField_of_alike (k : Scalar) (v w : Value) (h : Alike v w) :
    doc'.OperationField allowed k v w := by
  unfold OperationField
  split
  · exact parameterSlots_of_alike h
  · split
    · exact Value.entrywise_of_alike (fun _ _ _ h => slot_of_alike h) h
    · split
      · exact Value.entrywise_of_alike bodyField_of_alike h
      · split
        · trivial
        · exact h

theorem meets_of_replaces (h : Both doc doc' doc'.Replaces v w) (r : Role) :
    doc.Meets doc' r v w := by
  obtain ⟨t, ht, halike⟩ := h.rel.target
  unfold Meets
  rw [settle_of_not_reference h.rel.inline, ht]
  refine .ok (.of_alike halike fun s hs => ⟨h.left hs, ?_⟩)
  rcases List.mem_append.1 (pointers_subset_of_settle ht (halike.pointers ▸ hs)) with hs | hs
  · exact h.right hs
  · exact hs

namespace Both

theorem copies (h : Both doc doc' Alike v w) (r : Role) : Copies doc doc' r v w :=
  .of_alike h.rel fun _ hs => ⟨h.left hs, h.right (by rwa [h.rel.pointers])⟩

theorem get? {R : Scalar → Value → Value → Prop} (h : Both doc doc' (Entrywise R) v w)
    (name : String) : Option.Rel (Both doc doc' (R (.str name))) (v.get? name) (w.get? name) :=
  rel_of_eq_some (h.rel.get? name) fun _ _ hv hw hxy =>
    ⟨hxy, fun _ hs => h.left (Value.pointers_subset_of_get? hv hs),
      fun _ hs => h.right (Value.pointers_subset_of_get? hw hs)⟩

/-- Fields that are missing count as null. -/
theorem get {R : Scalar → Value → Value → Prop} (h : Both doc doc' (Entrywise R) v w)
    (name : String) (hR : R (.str name) .null .null) :
    Both doc doc' (R (.str name)) (v.get name) (w.get name) := by
  have hrel := h.get? name
  unfold Value.get
  generalize v.get? name = x, w.get? name = y at hrel
  cases hrel with
  | none => exact ⟨hR, by simp [Value.pointers], by simp [Value.pointers]⟩
  | some h => exact h

theorem exists_of_map {R : Scalar → Value → Value → Prop} {origin : Nat} {es : Value.Entries}
    (h : Both doc doc' (Entrywise R) (.map origin es) w) :
    ∃ origin' fs, w = .map origin' fs ∧
      List.Forall₂ (fun e f => f.1 = e.1 ∧ Both doc doc' (R e.1) e.2 f.2) es fs := by
  obtain ⟨origin', fs, rfl, hes⟩ := h.rel.of_map
  refine ⟨origin', fs, rfl, forall₂_of_mem hes fun e he f hf hef => ⟨hef.1, hef.2, ?_, ?_⟩⟩
  · refine List.Subset.trans ?_ h.left
    rw [Value.pointers]
    exact Value.pointers_subset_of_mem_entries he
  · refine List.Subset.trans ?_ h.right
    rw [Value.pointers]
    exact Value.pointers_subset_of_mem_entries hf

theorem first? {R : Scalar → Value → Value → Prop} (h : Both doc doc' (Entrywise R) v w) :
    Option.Rel (fun e f => f.1 = e.1 ∧ Both doc doc' (R e.1) e.2 f.2) v.first?
      w.first? := by
  cases v with
  | map =>
      obtain ⟨_, fs, rfl, hes⟩ := h.exists_of_map
      cases hes with
      | nil => exact .none
      | cons he _ => exact .some he
  | _ =>
      have hw := h.rel.isMap
      cases w with
      | map => cases hw
      | _ => exact .none

theorem entriesOrNone {R : Scalar → Value → Value → Prop} (h : Both doc doc' (Entrywise R) v w) :
    Matches (List.Forall₂ fun e f => f.1 = e.1 ∧ Both doc doc' (R e.1) e.2 f.2)
      v.entriesOrNone w.entriesOrNone := by
  unfold Value.entriesOrNone
  rw [h.rel.isFilled]
  split
  · cases v with
    | map =>
        obtain ⟨_, fs, rfl, hes⟩ := h.exists_of_map
        exact .ok hes
    | _ =>
        have hw := h.rel.isMap
        cases w with
        | map => cases hw
        | _ => exact .error _ _
  · exact .ok .nil

theorem membersOrNone {R : Value → Value → Prop} (hR : ∀ v w, Alike v w → R v w)
    (h : Both doc doc' (Itemwise R) v w) :
    Matches (List.Forall₂ (Both doc doc' R)) v.membersOrNone w.membersOrNone := by
  have hmatches : Matches (List.Forall₂ R) v.membersOrNone w.membersOrNone := by
    have halike (hvw : Alike v w) : Matches (List.Forall₂ R) v.membersOrNone w.membersOrNone :=
      hvw.membersOrNone.mono fun _ _ hvs => hvs.imp hR
    cases v with
    | seq vs =>
        cases w with
        | seq ws =>
            have hvs : List.Forall₂ R vs ws := h.rel
            cases hvs with
            | nil => exact .ok .nil
            | cons hx hrest => exact .ok (.cons hx hrest)
        | _ => exact halike h.rel
    | _ => exact halike h.rel
  refine hmatches.of_ok fun vs ws hvs hws hrel => ?_
  exact forall₂_of_mem hrel fun x hx y hy hxy => ⟨hxy,
    fun s hs => h.left (Value.pointers_subset_of_membersOrNone hvs hx hs),
    fun s hs => h.right (Value.pointers_subset_of_membersOrNone hws hy hs)⟩

theorem meets (h : doc.Mirrors .fixed doc') (hv : Both doc doc' doc'.Slot v w) {r : Role}
    (hr : r.field (.str "$ref") = .fixed) : doc.Meets doc' r v w := by
  rcases hv.rel with halike | hreplaces
  · exact h.settle (Role.fixed_refines r) hr (copies ⟨halike, hv.left, hv.right⟩ r)
  · exact meets_of_replaces ⟨hreplaces, hv.left, hv.right⟩ r

end Both

theorem schemaField_of_ne {k : Scalar} (hk : k ≠ .str "schema") : doc'.SchemaField k = Alike :=
  if_neg hk

theorem schemaField_schema : doc'.SchemaField (.str "schema") = doc'.Slot := if_pos rfl

theorem bodyField_content :
    doc'.BodyField (.str "content") = Entrywise fun _ => Entrywise doc'.SchemaField :=
  if_pos rfl

theorem Replaces.mapping (h : doc'.Replaces v w) (field : String) (place : List IssuePlace) :
    Fields.mapping field place w = [] := by
  obtain ⟨origin, pointer, rfl⟩ := h.reference
  rfl

theorem mapping_of_hasTextKeys (h : v.hasTextKeys = true) (field : String)
    (place : List IssuePlace) : Fields.mapping field place v = [] := by
  unfold Value.hasTextKeys at h
  split at h
  · next origin es =>
      refine List.filterMap_eq_nil_iff.2 fun k hk => ?_
      obtain ⟨e, he, rfl⟩ := List.mem_map.1 hk
      have htext := List.all_eq_true.1 h e he
      generalize e.1 = k at htext
      cases k with
      | str => rfl
      | _ => cases htext
  · cases h

/-- A chain of references depends on what its first reference points with only. -/
theorem settle_of_reference? {p : Value} (hr : v.reference? = some p) :
    doc.settle v = doc.settle (Schema.referenceTo p) := by
  have hr' : (Schema.referenceTo p).reference? = some p := by
    simp [Schema.referenceTo, Value.reference?, Value.find?]
  by_cases htext : ∃ s, p = .str s
  · obtain ⟨s, rfl⟩ := htext
    exact doc.settle_congr hr hr'
  · have hp : ∀ s, p ≠ .str s := fun s hs => htext ⟨s, hs⟩
    unfold Document.settle
    rw [hr, hr']
    split
    · next heq => cases heq
    · next s heq => exact absurd (Option.some.inj heq) (hp s)
    · rw [doc.chase_of_not_text _ hr hp, doc.chase_of_not_text _ hr' hp]

theorem operationField_parameters :
    doc'.OperationField allowed (.str "parameters") = doc'.ParameterSlots allowed := if_pos rfl

theorem operationField_responses :
    doc'.OperationField allowed (.str "responses") = Entrywise fun _ => doc'.Slot := by
  simp [OperationField]

theorem operationField_requestBody :
    doc'.OperationField allowed (.str "requestBody") = Entrywise doc'.BodyField := by
  simp [OperationField]

theorem operationField_of_plain {name : String}
    (h : name ∈ ["operationId", "summary", "description", "tags", "deprecated"]) :
    doc'.OperationField allowed (.str name) = Alike := by
  simp only [List.mem_cons, List.not_mem_nil, or_false] at h
  rcases h with rfl | rfl | rfl | rfl | rfl
  all_goals simp [OperationField]

theorem pathField_of_alike (k : Scalar) (v w : Value) (h : Alike v w) :
    doc'.PathField allowed k v w := by
  unfold PathField
  split
  · split
    · exact parameterSlots_of_alike h
    · split
      · exact Value.entrywise_of_alike operationField_of_alike h
      · exact h
  · exact h

theorem pathField_parameters :
    doc'.PathField allowed (.str "parameters") = doc'.ParameterSlots allowed := by
  funext v w
  simp [PathField]

theorem pathField_method {k : String} {m : Method} (hk : Method.ofKey? k = some m) :
    doc'.PathField allowed (.str k) = Entrywise (doc'.OperationField allowed) := by
  have hne : k ≠ "parameters" := by
    rintro rfl
    rw [show Method.ofKey? "parameters" = none by decide] at hk
    cases hk
  funext v w
  simp [PathField, hne, hk]

namespace Both

/-- A parameter and what stands for it are the same parameter, written elsewhere perhaps. -/
theorem parameterNode (h : doc.Mirrors .fixed doc')
    (hv : Both doc doc' (doc'.ParameterSlot Value.hasTextKeys) v w) :
    doc.ParameterNode doc' v w := by
  rcases hv.rel with hfields | ⟨hkeys, hreplaces⟩
  -- The parameter stays where it is, but it may be a reference beside a schema that is replaced.
  · refine ⟨?_, hfields.mapping_eq "parameters"⟩
    have hboth : Both doc doc' (Entrywise doc'.SchemaField) v w := ⟨hfields, hv.left, hv.right⟩
    have href : Option.Rel (Both doc doc' Alike) v.reference? w.reference? := by
      have hrel := hboth.get? "$ref"
      rwa [schemaField_of_ne (by decide)] at hrel
    cases hr : v.reference? with
    | none =>
        rw [hr] at href
        have hr' := eq_none_of_rel href
        rw [settle_of_not_reference (by rw [Value.isReference, hr]; rfl),
          settle_of_not_reference (by rw [Value.isReference, hr']; rfl)]
        refine .ok ⟨hfields.isMap, fun name hname => ?_, ?_⟩
        · have hne : name ≠ "schema" := by
            rintro rfl
            exact absurd hname (by decide)
          have hrel := hfields.get? name
          rwa [schemaField_of_ne (by simpa using hne)] at hrel
        · have hschema := hboth.get "schema" (schemaField_of_alike _ _ _ (Alike.refl _))
          rw [schemaField_schema] at hschema
          exact hschema.meets h rfl
    | some p =>
        rw [hr] at href
        obtain ⟨q, hq, hpq⟩ := exists_of_rel href
        have hp : Points doc doc' p q :=
          { toCopies := hpq.copies _
            text := by
              rintro s rfl
              obtain rfl := hpq.rel.of_scalar
              exact ⟨hv.left (Value.mem_pointers_of_reference? hr),
                hv.right (Value.mem_pointers_of_reference? hq)⟩ }
        rw [settle_of_reference? hr, settle_of_reference? hq]
        exact (h.settle_node (Schema.copies_referenceTo hp)).mono fun _ _ hvw => hvw.sameParameter h
  · refine ⟨(meets_of_replaces ⟨hreplaces, hv.left, hv.right⟩ .node).mono
      fun _ _ hvw => hvw.sameParameter h, fun place => ?_⟩
    rw [hreplaces.mapping, mapping_of_hasTextKeys hkeys]

theorem parameterNodes (h : doc.Mirrors .fixed doc')
    (hv : Both doc doc' (doc'.ParameterSlots Value.hasTextKeys) v w) :
    Matches (List.Forall₂ (doc.ParameterNode doc')) v.membersOrNone w.membersOrNone :=
  (hv.membersOrNone parameterSlot_of_alike).mono fun _ _ hvs => hvs.imp fun _ _ hv =>
    hv.parameterNode h

/-- The media types of two bodies meet. -/
theorem sameBody (h : doc.Mirrors .fixed doc') (hv : Both doc doc' (Entrywise doc'.BodyField) v w) :
    doc.SameBody doc' v w where
  isNull := hv.rel.isNull
  check := by rw [Fields.optionalMapping, Fields.optionalMapping, hv.rel.isNull, hv.rel.mapping_eq]
  isReference := by
    have href := hv.get? "$ref"
    unfold Value.isReference Value.reference?
    generalize v.get? "$ref" = pointer, w.get? "$ref" = pointer' at href
    cases href <;> rfl
  media := by
    have hcontent := hv.get "content" (bodyField_of_alike _ _ _ (Alike.refl _))
    rw [bodyField_content] at hcontent
    have hentry := hcontent.first?
    generalize (v.get "content").first? = entry, (w.get "content").first? = entry' at hentry
    cases hentry with
    | none => exact .none
    | some he =>
        have hschema := he.2.get "schema" (schemaField_of_alike _ _ _ (Alike.refl _))
        rw [schemaField_schema] at hschema
        exact .some ⟨he.1, hschema.meets h rfl⟩

theorem sameNode (h : doc.Mirrors .fixed doc')
    (hv : Both doc doc' (Entrywise (doc'.OperationField Value.hasTextKeys)) v w) :
    doc.SameNode doc' v w where
  field name hname := by
    have hrel := hv.get name (operationField_of_alike _ _ _ (Alike.refl _))
    rw [operationField_of_plain hname] at hrel
    exact hrel.rel
  parameters := by
    have hparameters := hv.get "parameters" (operationField_of_alike _ _ _ (Alike.refl _))
    rw [operationField_parameters] at hparameters
    exact hparameters.parameterNodes h
  body := by
    have hbody := hv.get "requestBody" (operationField_of_alike _ _ _ (Alike.refl _))
    rw [operationField_requestBody] at hbody
    exact hbody.sameBody h
  responses := by
    have hresponses := hv.get "responses" (operationField_of_alike _ _ _ (Alike.refl _))
    rw [operationField_responses] at hresponses
    exact hresponses.entriesOrNone.mono fun _ _ hes => hes.imp fun _ _ he =>
      ⟨he.1, he.2.meets h rfl⟩

theorem samePath (h : doc.Mirrors .fixed doc')
    (hv : Both doc doc' (Entrywise (doc'.PathField Value.hasTextKeys)) v w) :
    doc.SamePath doc' v w where
  parameters := by
    have hparameters := hv.get "parameters" (pathField_of_alike _ _ _ (Alike.refl _))
    rw [pathField_parameters] at hparameters
    exact hparameters.parameterNodes h
  entries := by
    cases v with
    | map origin es =>
        obtain ⟨origin', fs, rfl, hes⟩ := hv.exists_of_map
        refine .some (hes.imp fun e f hef => ⟨hef.1, fun k m hk hm => ?_⟩)
        have hnode := hef.2
        rw [hk, pathField_method hm] at hnode
        exact ⟨hnode.rel.isMap, hnode.sameNode h⟩
    | _ =>
        have hw := hv.rel.isMap
        cases w with
        | map => cases hw
        | _ => exact .none

end Both

end Document

end OpenApiClient
