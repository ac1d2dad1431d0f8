import OpenApiClient.Proofs.Grouping

/-!
# The fields of a body

A body that is described by a mapping has one field for each property.  The names that the mapping
requires tell which fields come first, and in which order, as far as they name properties at all;
they may be repeated.  `AreFields` says what the fields of a body are, by its two lists of names.
-/

namespace OpenApiClient

open Walk

/-- The first media type of a request has a schema, in place or elsewhere, that is a mapping.  Its
properties are named by texts, and the names that it requires are texts. -/
inductive Operation.TakesFields (doc : Document) (o : Operation) (names required : List String) :
    Prop
  | intro {body media settled : Value} {mediaType : Scalar} {origin origin' : ℕ}
      {rest es : Value.Entries} (hbody : o.requestBody = some body)
      (hcontent : body.get "content" = .map origin ((mediaType, media) :: rest))
      (hschema : doc.settle (media.get "schema") = .ok settled) (hmap : settled.isMap = true)
      (hproperties : (settled.get "properties").orElse (.map 0 []) = .map origin' es)
      (hnames : es.map (·.1) = names.map .str)
      (hrequired : (settled.get "required").membersOrNone = .ok (required.map .str))

namespace Parameter

/-- Parameters by name are the fields of a body with properties of these names, of which the
required ones are named by another list. -/
structure AreFields (names required : List String) (body : List (String × Parameter)) : Prop where
  nodup : (body.map (·.1)).Nodup
  mem_iff (name : String) : name ∈ body.map (·.1) ↔ name ∈ names
  requiredFirst : body.Pairwise fun e f => f.1 ∈ required → e.1 ∈ required
  orderedRequired : body.Pairwise fun e f =>
    e.1 ∈ required → f.1 ∈ required → required.idxOf e.1 < required.idxOf f.1
  orderedOptional : body.Pairwise fun e f =>
    e.1 ∉ required → f.1 ∉ required → names.idxOf e.1 < names.idxOf f.1
  required_iff : ∀ e ∈ body, e.2.required = true ↔ e.1 ∈ required
  own : ∀ e ∈ body, e.2.name = e.1 ∧ e.2.variableName = Name.variableName e.1 ∧
    e.2.location = .body

section Names

variable {names required : List String} {m n : String}

/-- The required names that name properties. -/
def requested (names required : List String) : List String :=
  required.filter fun n => decide (n ∈ names)

/-- The other names of properties. -/
def unrequested (names required : List String) : List String :=
  names.filter fun n => decide (n ∉ requested names required)

theorem mem_requested : n ∈ requested names required ↔ n ∈ required ∧ n ∈ names := by
  simp [requested]

theorem mem_unrequested : n ∈ unrequested names required ↔ n ∈ names ∧ n ∉ required := by
  simp +contextual [unrequested, mem_requested]

/-- Where two properties stand with the requested names first. -/
theorem order_of_idxOf_lt (hn : n ∈ names)
    (hlt : (requested names required ++ unrequested names required).idxOf m <
      (requested names required ++ unrequested names required).idxOf n) :
    (n ∈ required → m ∈ required ∧ required.idxOf m < required.idxOf n) ∧
      (m ∉ required → names.idxOf m < names.idxOf n) := by
  constructor
  · intro hrequired
    obtain ⟨hm, hlt⟩ := idxOf_lt_of_append_left (mem_requested.2 ⟨hrequired, hn⟩) hlt
    exact ⟨(mem_requested.1 hm).1, idxOf_lt_of_filter (decide_eq_true hn) hlt⟩
  · intro hm
    obtain ⟨hn', hlt⟩ := idxOf_lt_of_append_right (fun h => hm (mem_requested.1 h).1) hlt
    exact idxOf_lt_of_filter (decide_eq_true hn') hlt

theorem any_same_str (l : List String) :
    (l.map Value.str).any (·.same (.str n)) = decide (n ∈ l) := by
  rw [Bool.eq_iff_iff, List.any_eq_true, decide_eq_true_iff]
  simp [Value.same]

/-- The names of the fields are those of the properties, with the requested ones first. -/
theorem fieldNames_eq {origin : ℕ} {es : Value.Entries} {v : Value}
    (hnames : es.map (·.1) = names.map .str)
    (hrequired : v.membersOrNone = .ok (required.map .str)) :
    fieldNames (.map origin es) v =
      .ok ((requested names required).map .str, (unrequested names required).map .str) := by
  have hcontains (n : String) :
      (Value.map origin es).contains (.str n) = .ok (decide (n ∈ names)) := by
    refine congrArg Except.ok ?_
    rw [Bool.eq_iff_iff, isSome_find?_str, hnames, decide_eq_true_iff]
    simp
  have hfirst : (required.map Value.str).filterM (Value.map origin es).contains =
      .ok ((requested names required).map .str) := by
    rw [filterM_eq_ok (p := fun v => v.text?.any fun n => decide (n ∈ names)), List.filter_map]
    · rfl
    · rintro v hv
      obtain ⟨n, -, rfl⟩ := List.mem_map.1 hv
      exact hcontains n
  have hmembers : (Value.map origin es).members = .ok (names.map .str) := by
    refine congrArg Except.ok ?_
    calc es.map (fun e => Value.scalar e.1) = (es.map (·.1)).map Value.scalar := by
          rw [List.map_map]
          rfl
      _ = names.map .str := by
          rw [hnames, List.map_map]
          rfl
  have hrest : (names.map Value.str).filter
      (fun v => !((requested names required).map Value.str).any (·.same v)) =
        (unrequested names required).map .str := by
    rw [List.filter_map]
    refine congrArg (List.map Value.str) (List.filter_congr fun n _ => ?_)
    rw [Function.comp_apply, any_same_str, decide_not]
  unfold fieldNames
  rw [hrequired]
  refine bind_eq_ok.2 ⟨_, rfl, bind_eq_ok.2 ⟨_, hfirst, bind_eq_ok.2 ⟨_, hmembers, ?_⟩⟩⟩
  exact congrArg (fun rest => Except.ok (_, rest)) hrest

end Names

section Fields

variable {doc : Document} {o : Operation} {names required : List String} {b b' : Build}

theorem required_of_yields_ofField {name : String} {schema : Value} {isRequired : Bool}
    {p : Parameter} (h : Yields (ofField doc name schema isRequired) b p b') :
    p.required = isRequired := by
  unfold ofField at h
  dsimp only at h
  split at h
  · obtain ⟨rfl, -⟩ := yields_pure.1 h
    rfl
  split at h
  · obtain ⟨target, b₁, -, h₁⟩ := yields_bind.1 h
    cases target with
    | some node =>
        obtain ⟨rfl, -⟩ := yields_pure.1 h₁
        rfl
    | none =>
        obtain ⟨type, b₂, -, hpure⟩ := yields_bind.1 h₁
        obtain ⟨rfl, -⟩ := yields_pure.1 hpure
        rfl
  · split at h
    · obtain ⟨items, b₁, -, hpure⟩ := yields_bind.1 h
      obtain ⟨rfl, -⟩ := yields_pure.1 hpure
      rfl
    · obtain ⟨rfl, -⟩ := yields_pure.1 h
      rfl

/-- A parameter is the field of a name, required or not. -/
structure IsFieldOf (required : List String) (n : String) (p : Parameter) : Prop where
  name : p.name = n
  variableName : p.variableName = Name.variableName n
  location : p.location = .body
  required_iff : p.required = true ↔ n ∈ required

/-- Whatever is made for a name is the field of that name. -/
theorem isFieldOf_of_yields_ofField {origin : ℕ} {es : Value.Entries} {n : String} {schema : Value}
    {p : Parameter} (hnames : es.map (·.1) = names.map .str)
    (hindex : (Value.map origin es).index (.str n) = .ok schema)
    (h : Yields (ofField doc n schema
      (((requested names required).map Value.str).any (·.same (.str n)))) b p b') :
    IsFieldOf required n p := by
  have hn : n ∈ names := by
    obtain ⟨_, _, heq, hfound⟩ := exists_entries_of_index hindex
    cases heq
    have hkey := isSome_find?_str.1 (Option.isSome_of_eq_some hfound)
    simpa [hnames] using hkey
  have hfield := isField_of_yields_ofField h
  refine ⟨hfield.name, hfield.variableName, hfield.location, ?_⟩
  rw [required_of_yields_ofField h, any_same_str, decide_eq_true_iff, mem_requested]
  exact and_iff_left hn

theorem areFields_byName {fields : List Parameter} (h : List.Forall₂ (IsFieldOf required)
    (requested names required ++ unrequested names required) fields) :
    AreFields names required (byName fields) := by
  have htable := isTable_byName fields
  have hkeys : (byName fields).map (·.1) =
      (requested names required ++ unrequested names required).eraseDups := by
    unfold rowsOf at htable
    rw [htable.keys, List.map_map]
    refine congrArg List.eraseDups ?_
    exact (map_eq_of_forall₂ (f := id) (fun _ _ hfield => hfield.name) h).trans (List.map_id _)
  have hnames (n : String) :
      n ∈ requested names required ++ unrequested names required ↔ n ∈ names := by
    rw [List.mem_append, mem_requested, mem_unrequested]
    tauto
  have hfield (e : String × Parameter) (he : e ∈ byName fields) : IsFieldOf required e.1 e.2 := by
    obtain ⟨hp, hname⟩ := mem_rowsOf.1 (htable.mem_rows he)
    obtain ⟨n, -, hn⟩ := exists_left_of_forall₂ h hp
    obtain rfl : e.1 = n := hname.symm.trans hn.name
    exact hn
  -- What two names have to do with each other is told by their places in the two lists.
  have hpairs {P : String → String → Prop} (hP : ∀ m n, n ∈ names →
      (requested names required ++ unrequested names required).idxOf m <
        (requested names required ++ unrequested names required).idxOf n → P m n) :
      (byName fields).Pairwise fun e f => P e.1 f.1 := by
    rw [← List.pairwise_map (f := Prod.fst), hkeys, pairwise_eraseDups_iff]
    exact fun m _ n hn hlt => hP m n ((hnames n).1 hn) hlt
  constructor
  case nodup => exact htable.nodup
  case mem_iff =>
    intro name
    rw [hkeys, List.mem_eraseDups, hnames]
  case requiredFirst =>
    exact hpairs fun m n hn hlt hrequired => ((order_of_idxOf_lt hn hlt).1 hrequired).1
  case orderedRequired =>
    exact hpairs (P := fun m n => m ∈ required → n ∈ required →
      required.idxOf m < required.idxOf n) fun m n hn hlt _ hrequired =>
        ((order_of_idxOf_lt hn hlt).1 hrequired).2
  case orderedOptional =>
    exact hpairs (P := fun m n => m ∉ required → n ∉ required → names.idxOf m < names.idxOf n)
      fun m n hn hlt hoptional _ => (order_of_idxOf_lt hn hlt).2 hoptional
  case required_iff => exact fun e he => (hfield e he).required_iff
  case own =>
    exact fun e he => ⟨(hfield e he).name, (hfield e he).variableName, (hfield e he).location⟩

/-- If the media type of a body can be told, it is the first one of its content. -/
theorem eq_some_of_requestMedia? {body media : Value} {mediaType : Scalar} {origin : ℕ}
    {rest : Value.Entries} {found : Option (Scalar × Value)} (hbody : o.requestBody = some body)
    (hcontent : body.get "content" = .map origin ((mediaType, media) :: rest))
    (h : requestMedia? o = .ok found) : found = some (mediaType, media.get "schema") := by
  unfold requestMedia? at h
  rw [hbody] at h
  dsimp only at h
  split at h
  · cases h
  · rw [hcontent] at h
    exact (Except.ok.inj h).symm

/-- The fields of the body of a request are told by its two lists of names. -/
theorem areFields_of_yields_inBody {body : List (String × Parameter)}
    (ho : o.TakesFields doc names required) (h : Yields (inBody doc o) b body b') :
    AreFields names required body := by
  obtain ⟨hbody, hcontent, hschema, hmap, hproperties, hnames, hrequired⟩ := ho
  unfold inBody at h
  obtain ⟨found, b₁, hlift, h₁⟩ := yields_bind.1 h
  obtain ⟨hfound, rfl⟩ := yields_lift.1 hlift
  obtain rfl := eq_some_of_requestMedia? hbody hcontent hfound
  obtain ⟨settled', b₂, hlift, h₂⟩ := yields_bind.1 h₁
  obtain ⟨hsettled, rfl⟩ := yields_lift.1 hlift
  obtain rfl := Except.ok.inj (hschema.symm.trans hsettled)
  rw [if_neg (by simp [hmap]), hproperties] at h₂
  obtain ⟨⟨first, others⟩, b₃, hlift, h₃⟩ := yields_bind.1 h₂
  obtain ⟨hfirst, rfl⟩ := yields_lift.1 hlift
  obtain ⟨rfl, rfl⟩ :=
    Prod.mk.inj (Except.ok.inj ((fieldNames_eq hnames hrequired).symm.trans hfirst))
  obtain ⟨fields, b₄, hfields, hpure⟩ := yields_bind.1 h₃
  obtain ⟨rfl, rfl⟩ := yields_pure.1 hpure
  have hmade : List.Forall₂ (fun (v : Value) p => ∀ n, v = .str n → IsFieldOf required n p)
      ((requested names required ++ unrequested names required).map .str) fields := by
    rw [List.map_append]
    refine (yields_mapM.1 hfields).forall₂
      (P := fun _ (v : Value) p => ∀ n, v = .str n → IsFieldOf required n p) ?_
      fun _ _ _ _ _ _ _ hfield => hfield
    rintro _ s p s' hstep n rfl
    obtain ⟨schema, s₁, hlift, hfield⟩ := yields_bind.1 hstep
    obtain ⟨hindex, rfl⟩ := yields_lift.1 hlift
    exact isFieldOf_of_yields_ofField hnames hindex hfield
  exact areFields_byName ((List.forall₂_map_left_iff.1 hmade).imp fun n _ hfield => hfield n rfl)

end Fields

/-- What is asked of new pets: of the names that are required, one is repeated and one names
nothing. -/
def newPet : Value := .map 3 [
  (.str "type", .str "object"),
  (.str "required", .seq [.str "age", .str "id", .str "name", .str "age"]),
  (.str "properties", .map 4 [
    (.str "tag", .map 5 [(.str "type", .str "string")]),
    (.str "name", .map 6 [(.str "type", .str "string")]),
    (.str "age", .map 7 [(.str "type", .str "integer")])])]

def petBodies : Document := .ofValue <| .map 0 [
  (.str "components", .map 1 [(.str "schemas", .map 2 [(.str "NewPet", newPet)])])]

def petCreation : Operation where
  path := "/pets"
  method := .post
  operationId := "createPet"
  summary := none
  description := none
  tags := []
  parameters := []
  requestBody := some <| .map 8 [(.str "content", .map 9 [(.str "application/json", .map 10 [
    (.str "schema", Schema.referenceTo (.str "#/components/schemas/NewPet"))])])]
  responses := []
  deprecated := false

theorem takesFields_petCreation :
    petCreation.TakesFields petBodies ["tag", "name", "age"] ["age", "id", "name", "age"] :=
  have hschema : (petBodies.settle
      (Schema.referenceTo (.str "#/components/schemas/NewPet"))).toOption = some newPet := by
    decide +kernel
  .intro rfl rfl (toOption_eq_some.1 hschema) rfl rfl rfl rfl

theorem names_petCreation : ((outcome (inBody petBodies petCreation) {}).1.toOption.map
    fun body => body.map (·.1)) = some ["age", "name", "tag"] := by
  decide +kernel

/-- New pets have an age and a name, in this order, and may have a tag. -/
theorem areFields_petCreation : ∃ body b', Yields (inBody petBodies petCreation) {} body b' ∧
    body.map (·.1) = ["age", "name", "tag"] ∧
    AreFields ["tag", "name", "age"] ["age", "id", "name", "age"] body := by
  obtain ⟨body, hbody, hnames⟩ := Option.map_eq_some_iff.1 names_petCreation
  have hyields := yields_outcome (toOption_eq_some.1 hbody)
  exact ⟨body, _, hyields, hnames, areFields_of_yields_inBody takesFields_petCreation hyields⟩

end Parameter

end OpenApiClient
