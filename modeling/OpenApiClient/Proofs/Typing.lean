import OpenApiClient.Proofs.Signature

/-!
# Properties and fields type a schema alike

A schema is typed twice: for a property of an entity, and for a field of a body.  Both read it
on their own, and where a schema names no type they part.  `Schema.Tells` says what a schema of
one of the ordinary shapes tells of a type, in rules that belong to neither of the two; it tells
one thing only, and it is what a property is made with and what a field is made with.

The property is a record of texts, filled all at once, and holds the texts that bytes write.  The
field is changed after it is made, and holds bytes as they are.
-/

namespace OpenApiClient

open Walk

namespace Building

/-- Makes the property that a schema types, if its shape is supported, and notes that the entity
uses what the property refers to. -/
def makeProperty (refer : Value → Building String) (doc : Document) (entity : String)
    (name : Scalar) (schema : Value) (required : Bool) : Building (Option Property) := do
  if !schema.isMap then return none
  match ← Schema.Typing.ofSchema doc schema with
  | .unsupported =>
    note .debug "compiler.registry"
      ("Skipping property " ++ entity ++ "." ++ name.text ++ " with unsupported shape")
    return none
  | .plain type format description items =>
    some <$> Property.ofValues required (.scalar name) type format description items
  | .entity pointer description =>
    let target ← refer pointer
    modifyRegistry (·.modify entity (·.addUse target))
    some <$> Property.ofValues required (.scalar name) (.str target) .null description .null
  | .entities pointer description =>
    let target ← refer pointer
    modifyRegistry (·.modify entity (·.addUse target))
    some <$>
      Property.ofValues required (.scalar name) (.str "array") .null description (.str target)

/-- A declaration extends an entity by the property that is made of it. -/
theorem extend_property (refer : Value → Building String) (doc : Document) (entity : String)
    (name : Scalar) (schema : Value) (required : Bool) :
    extend refer doc entity (.property name schema required) = (do
      match ← makeProperty refer doc entity name schema required with
      | some p => modifyRegistry (·.modify entity (·.addProperty p))
      | none => return) := by
  unfold extend makeProperty
  dsimp only
  split
  · simp
  · simp only [bind_assoc]
    congr 1
    funext typing
    cases typing <;> simp

end Building

/-- A text if there is one, null otherwise. -/
def Value.ofText? (text : Option String) : Value := (text.map .str).getD .null

namespace Schema

/-- What a schema is read for when a property or a field is made of it. -/
structure Reading where
  type : Value
  format : Value
  items : Value
  description : Value
  deriving DecidableEq, Repr

/-- What a record of texts holds of what a schema is read for. -/
def Reading.held (r : Reading) : Reading where
  type := Fields.plain r.type
  format := Fields.plain r.format
  items := Fields.plain r.items
  description := Fields.plain r.description

/-- Nothing of what a schema is read for is bytes. -/
def Reading.IsFreeOfBytes (r : Reading) : Prop :=
  ∀ v ∈ [r.type, r.format, r.items, r.description], ∀ bytes, v ≠ .scalar (.bytes bytes)

/-- A keyword names a type: by itself, or as the first of a list besides `null`. -/
inductive Names : Value → String → Prop
  | text (type : String) : Names (.str type) type
  | list {nulls rest : List Value} {type : String} (hnulls : ∀ v ∈ nulls, v = .str "null")
      (htype : type ≠ "null") : Names (.seq (nulls ++ .str type :: rest)) type

/-- What the items of a list are: of the type of a scalar, of an entity, of a type that is named
right there, or of no type that is told. -/
inductive TellsOfItems (doc : Document) (items : Value) : Value → Prop
  | scalar {pointer node type : Value} (hr : items.reference? = some pointer)
      (hs : scalarTarget? doc pointer = .ok (some node))
      (ht : typeName? (node.get "type") = some type) : TellsOfItems doc items type
  | entity {pointer node : Value} {name : String} (hr : items.reference? = some pointer)
      (hs : scalarTarget? doc pointer = .ok none) (he : doc.entity? pointer = some (name, node)) :
      TellsOfItems doc items (.str name)
  | named {type : String} (hr : items.reference? = none)
      (ht : items.get "type" = .str type) : TellsOfItems doc items (.str type)
  | nothing (hm : items.isMap = false) : TellsOfItems doc items .null

/-- What a schema says: what the scalar says that it refers to, or the name of the entity, or what
stands in itself. -/
inductive Tells (doc : Document) (schema : Value) : Reading → Prop
  | scalar {pointer node type : Value} (hr : schema.reference? = some pointer)
      (hs : scalarTarget? doc pointer = .ok (some node))
      (ht : typeName? (node.get "type") = some type) :
      Tells doc schema ⟨type, node.get "format", .null,
        (schema.get "description").orElse (node.get "description")⟩
  | entity {pointer node : Value} {name : String} (hr : schema.reference? = some pointer)
      (hs : scalarTarget? doc pointer = .ok none) (he : doc.entity? pointer = some (name, node)) :
      Tells doc schema ⟨.str name, .null, .null, schema.get "description"⟩
  | plain {type : String} (hr : schema.reference? = none) (ht : Names (schema.get "type") type)
      (hne : type ≠ "array") :
      Tells doc schema ⟨.str type, schema.get "format", .null, schema.get "description"⟩
  | array {items : Value} (hr : schema.reference? = none) (ht : Names (schema.get "type") "array")
      (hi : TellsOfItems doc (schema.get "items") items) :
      Tells doc schema ⟨.str "array", .null, items, schema.get "description"⟩

/-- The items of a list have an ordinary shape: they are no mapping, or refer to a schema, or name
their type by a text. -/
def HasPlainItems (schema : Value) : Prop :=
  (schema.get "items").isMap = false ∨ (∃ p, (schema.get "items").reference? = some p) ∨
    ∃ type, (schema.get "items").get "type" = .str type

/-- The shape of a schema is one on which properties and fields agree. -/
inductive HasShape (schema : Value) : Prop
  | reference {pointer : Value} (hr : schema.reference? = some pointer)
  | named {type : String} (ht : Names (schema.get "type") type)
      (hitems : type = "array" → HasPlainItems schema)

theorem typeName?_eq_some_str {v : Value} {type : String} :
    typeName? v = some (.str type) ↔ Names v type := by
  constructor
  · intro h
    unfold typeName? at h
    split at h
    · split at h
      · next items t hfound =>
          split at h
          · cases h
          · obtain rfl := Option.some.inj h
            obtain ⟨htype, nulls, rest, rfl, hnulls⟩ := List.find?_eq_some_iff_append.1 hfound
            refine .list (fun v hv => Value.eq_of_same_str ?_) ?_
            · simpa using hnulls v hv
            · simpa [Value.same] using htype
      · cases h
    · cases h
      exact .text _
    · cases h
  · intro h
    cases h with
    | text => rfl
    | @list nulls rest _ hnulls htype =>
        have hnone : nulls.find? (fun t => !t.same (.str "null")) = none := by
          refine List.find?_eq_none.2 fun v hv => ?_
          rw [hnulls v hv]
          decide
        have hfound : (nulls ++ Value.str type :: rest).find? (fun t => !t.same (.str "null")) =
            some (.str type) := by
          rw [List.find?_append, hnone, Option.none_or, List.find?_cons_of_pos]
          simpa [Value.same] using htype
        unfold typeName?
        simp only [hfound]
        rfl

/-- Where the keyword names a type, both ways to read it give that type. -/
theorem declaredType_of_typeName? {schema type : Value}
    (h : typeName? (schema.get "type") = some type) : declaredType schema = type := by
  unfold Value.get at h
  unfold declaredType
  cases hkeyword : schema.get? "type" with
  | none =>
      rw [hkeyword] at h
      cases h
  | some keyword =>
      rw [hkeyword, Option.getD_some] at h
      unfold typeName? at h
      split at h
      · split at h
        · next found =>
            split at h
            · cases h
            · simp only [found, Option.getD_some]
              exact Option.some.inj h
        · cases h
      · exact Option.some.inj h
      · cases h

/-- A scalar names its type. -/
theorem exists_typeName?_of_scalarTarget? {doc : Document} {pointer node : Value}
    (h : scalarTarget? doc pointer = .ok (some node)) :
    ∃ type, typeName? (node.get "type") = some type := by
  obtain ⟨settled, -, h⟩ := map_eq_ok.1 h
  split at h
  · next hscalar =>
      obtain rfl := Option.some.inj h
      cases htype : typeName? (settled.get "type") with
      | some type => exact ⟨type, rfl⟩
      | none => simp [isScalar, htype] at hscalar
  · cases h

end Schema

/-- What a property holds of the schema that it is made of. -/
def Property.reading (p : Property) : Schema.Reading where
  type := .str p.type
  format := .ofText? p.format
  items := .ofText? p.items
  description := .ofText? p.description

/-- What a parameter holds of the schema that it is made of. -/
def Parameter.reading (p : Parameter) : Schema.Reading where
  type := p.type
  format := p.format
  items := p.items
  description := p.description

namespace Fields

theorem ofText?_textOf? (v : Value) : Value.ofText? (textOf? v) = plain v := by
  unfold plain
  cases textOf? v <;> rfl

theorem plain_of_reading {v : Value} {s : String} (h : reading v = .ok s) : plain v = .str s := by
  rw [plain, textOf?_of_reading h]
  rfl

/-- What may stand where a text is needed is held as it is exactly if it is no bytes. -/
theorem plain_eq_self_iff {field : String} {v : Value} (h : optionalText field v = none) :
    plain v = v ↔ ∀ bytes, v ≠ .scalar (.bytes bytes) := by
  obtain rfl | ⟨s, hs⟩ := optionalText_eq_none_iff.1 h
  · simp
  · rw [plain_of_reading hs]
    unfold reading at hs
    split at hs
    · next t =>
        obtain rfl := Except.ok.inj hs
        simp
    · next bytes => exact iff_of_false (by simp) fun hnone => hnone bytes rfl
    · cases hs

end Fields

/-- A property is made of a name that stands for a text, and holds in texts what else it is made
of. -/
theorem Property.holds_of_ofValues {required : Bool} {name type format description items : Value}
    {p : Property} (h : ofValues required name type format description items = .ok p) :
    Fields.reading name = .ok p.name ∧
      p.reading = Schema.Reading.held ⟨type, format, items, description⟩ ∧
      (Schema.Reading.held ⟨type, format, items, description⟩ = ⟨type, format, items, description⟩ ↔
        Schema.Reading.IsFreeOfBytes ⟨type, format, items, description⟩) := by
  obtain ⟨hissues, rfl⟩ := (Fields.fill_eq_ok_iff _ _ _ _).1 h
  have hnone : ∀ issue ∈ [Fields.text "name" name, Fields.text "type" type,
      Fields.optionalText "format" format, Fields.optionalText "description" description,
      Fields.optionalText "items" items], issue = none := by
    simpa using List.filterMap_eq_nil_iff.1 hissues
  simp only [List.mem_cons, List.not_mem_nil, or_false, forall_eq_or_imp, forall_eq] at hnone
  obtain ⟨hname, htype, hformat, hdescription, hitems⟩ := hnone
  obtain ⟨n, hn⟩ := Fields.text_eq_none_iff.1 hname
  obtain ⟨s, hs⟩ := Fields.text_eq_none_iff.1 htype
  have htype' : Fields.optionalText "type" type = none :=
    Fields.optionalText_eq_none_iff.2 (.inr ⟨s, hs⟩)
  refine ⟨by rw [hn, Fields.textOf_of_reading hn], ?_, ?_⟩
  · simp only [reading, Schema.Reading.held, Fields.ofText?_textOf?, Fields.textOf_of_reading hs,
      Fields.plain_of_reading hs]
  · simp only [Schema.Reading.held, Schema.Reading.mk.injEq, Schema.Reading.IsFreeOfBytes,
      List.mem_cons, List.not_mem_nil, or_false, forall_eq_or_imp, forall_eq,
      Fields.plain_eq_self_iff htype', Fields.plain_eq_self_iff hformat,
      Fields.plain_eq_self_iff hitems, Fields.plain_eq_self_iff hdescription]

namespace Schema

variable {doc : Document} {schema : Value}

/-- A property holds in texts what a schema tells, which is just that if none of it is bytes. -/
inductive MadeOf (doc : Document) (schema : Value) (p : Property) : Prop
  | intro {r : Reading} (htells : Tells doc schema r) (hreading : p.reading = r.held)
      (hheld : r.held = r ↔ r.IsFreeOfBytes)

theorem MadeOf.of_ofValues {required : Bool} {name type format description items : Value}
    {p : Property} (h : Property.ofValues required name type format description items = .ok p)
    (htells : Tells doc schema ⟨type, format, items, description⟩) : MadeOf doc schema p := by
  obtain ⟨-, hreading, hheld⟩ := Property.holds_of_ofValues h
  exact ⟨htells, hreading, hheld⟩

/-- A list with items of an ordinary shape makes a property of what its items are. -/
theorem madeOf_of_ofItems {t : Typing} {name : Scalar} {required : Bool} {p : Property}
    (hr : schema.reference? = none) (hnames : Names (schema.get "type") "array")
    (hitems : HasPlainItems schema)
    (ht : Typing.ofItems doc (schema.get "items") (schema.get "description") = .ok t)
    (hp : t.property? doc name required = some p) : MadeOf doc schema p := by
  unfold Typing.ofItems at ht
  split at ht
  · next pointer hri =>
      obtain ⟨target, hs, ht⟩ := bind_eq_ok.1 ht
      cases target with
      | some node =>
          obtain ⟨type, htype⟩ := exists_typeName?_of_scalarTarget? hs
          obtain rfl := Except.ok.inj ht
          rw [htype] at hp
          exact .of_ofValues (toOption_eq_some.1 hp) (.array hr hnames (.scalar hri hs htype))
      | none =>
          obtain rfl := Except.ok.inj ht
          obtain ⟨⟨target, node⟩, he, hp⟩ := Option.bind_eq_some_iff.1 hp
          exact .of_ofValues (toOption_eq_some.1 hp) (.array hr hnames (.entity hri hs he))
  · next hri =>
      split at ht
      · next type htype =>
          obtain rfl := Except.ok.inj ht
          exact .of_ofValues (toOption_eq_some.1 hp) (.array hr hnames (.named hri htype))
      · next hno =>
          obtain rfl := Except.ok.inj ht
          refine .of_ofValues (toOption_eq_some.1 hp) (.array hr hnames (.nothing ?_))
          rcases hitems with hmap | ⟨pointer, href⟩ | ⟨type, htype⟩
          · exact hmap
          · cases hri.symm.trans href
          · exact absurd htype (hno type)

/-- A property is made of what its schema says. -/
theorem madeOf_of_property? {name : Scalar} {required : Bool} {p : Property}
    (hp : (Contribution.property name schema required).property? doc = some p)
    (hshape : HasShape schema) : MadeOf doc schema p := by
  obtain ⟨t, ht, hp⟩ := Option.bind_eq_some_iff.1 hp
  replace ht := Contribution.ofSchema_of_typing? ht
  unfold Typing.ofSchema at ht
  split at ht
  · next pointer hr =>
      obtain ⟨target, hs, ht⟩ := bind_eq_ok.1 ht
      cases target with
      | some node =>
          obtain ⟨type, htype⟩ := exists_typeName?_of_scalarTarget? hs
          obtain rfl := Except.ok.inj ht
          rw [htype] at hp
          exact .of_ofValues (toOption_eq_some.1 hp) (.scalar hr hs htype)
      | none =>
          obtain rfl := Except.ok.inj ht
          obtain ⟨⟨target, node⟩, he, hp⟩ := Option.bind_eq_some_iff.1 hp
          exact .of_ofValues (toOption_eq_some.1 hp) (.entity hr hs he)
  · next hr =>
      obtain ⟨type, hnames, hitems⟩ : ∃ type, Names (schema.get "type") type ∧
          (type = "array" → HasPlainItems schema) := by
        cases hshape with
        | reference href => cases hr.symm.trans href
        | named hnames hitems => exact ⟨_, hnames, hitems⟩
      rw [typeName?_eq_some_str.2 hnames] at ht
      dsimp only at ht
      split at ht
      · next harray =>
          obtain rfl : type = "array" := by simpa [Value.same] using harray
          exact madeOf_of_ofItems hr hnames (hitems rfl) ht hp
      · next harray =>
          obtain rfl := Except.ok.inj ht
          refine .of_ofValues (toOption_eq_some.1 hp) (.plain hr hnames ?_)
          rintro rfl
          exact harray (by decide)

/-- The items of a field are what the schema of its items says. -/
theorem eq_of_yields_itemsOf {items v w : Value} {b b' : Build} (htells : TellsOfItems doc items v)
    (h : Yields (Parameter.itemsOf doc items) b w b') : w = v := by
  unfold Parameter.itemsOf at h
  cases htells with
  | scalar hr hs ht =>
      rw [hr] at h
      obtain ⟨target, b₁, hlift, h₁⟩ := yields_bind.1 h
      obtain ⟨htarget, rfl⟩ := yields_lift.1 hlift
      obtain rfl := Except.ok.inj (hs.symm.trans htarget)
      obtain ⟨rfl, -⟩ := yields_pure.1 h₁
      exact declaredType_of_typeName? ht
  | entity hr hs he =>
      obtain ⟨name, rfl, hpointer⟩ := Parameter.exists_of_yields_itemsOf h hr hs
      obtain ⟨node, hnode, -⟩ := Building.yields_ofPointer hpointer
      obtain ⟨rfl, -⟩ := Prod.mk.inj (Option.some.inj (he.symm.trans hnode))
      rfl
  | @named type hr ht =>
      have hmap : items.isMap = true := by
        cases items with
        | map => rfl
        | _ => cases ht
      rw [hr, hmap] at h
      obtain ⟨rfl, -⟩ := yields_pure.1 h
      exact declaredType_of_typeName? (by rw [ht]; rfl)
  | nothing hm =>
      have hr : items.reference? = none := by
        cases items with
        | map => cases hm
        | _ => rfl
      rw [hr, hm] at h
      exact (yields_pure.1 h).1

/-- A field of a body is made of what its schema says. -/
theorem reading_of_yields_ofField {name : String} {required : Bool} {q : Parameter} {b b' : Build}
    {reading : Reading} (htells : Tells doc schema reading)
    (h : Yields (Parameter.ofField doc name schema required) b q b') : q.reading = reading := by
  have hmap : schema.isMap = true := by
    cases schema with
    | map => rfl
    | _ =>
      cases htells with
      | scalar hr => cases hr
      | entity hr => cases hr
      | plain hr ht => cases ht
      | array hr ht => cases ht
  unfold Parameter.ofField at h
  dsimp only at h
  rw [hmap] at h
  simp only [Bool.not_true, Bool.false_eq_true, if_false] at h
  cases htells with
  | scalar hr hs ht =>
      rw [hr] at h
      obtain ⟨target, b₁, hlift, h₁⟩ := yields_bind.1 h
      obtain ⟨htarget, rfl⟩ := yields_lift.1 hlift
      obtain rfl := Except.ok.inj (hs.symm.trans htarget)
      obtain ⟨rfl, -⟩ := yields_pure.1 h₁
      simp only [Parameter.reading, declaredType_of_typeName? ht]
  | entity hr hs he =>
      rw [hr] at h
      obtain ⟨target, b₁, hlift, h₁⟩ := yields_bind.1 h
      obtain ⟨htarget, rfl⟩ := yields_lift.1 hlift
      obtain rfl := Except.ok.inj (hs.symm.trans htarget)
      obtain ⟨type, b₂, hpointer, hpure⟩ := yields_bind.1 h₁
      obtain ⟨rfl, -⟩ := yields_pure.1 hpure
      obtain ⟨node, hnode, -⟩ := Building.yields_ofPointer hpointer
      obtain ⟨rfl, -⟩ := Prod.mk.inj (Option.some.inj (he.symm.trans hnode))
      rfl
  | @plain type hr ht hne =>
      have htype := declaredType_of_typeName? (typeName?_eq_some_str.2 ht)
      have harray : (Value.str type).same (.str "array") = false := by simp [Value.same, hne]
      rw [hr, htype] at h
      simp only [harray, Bool.false_eq_true, if_false] at h
      obtain ⟨rfl, -⟩ := yields_pure.1 h
      rfl
  | array hr ht hi =>
      have htype := declaredType_of_typeName? (typeName?_eq_some_str.2 ht)
      rw [hr, htype] at h
      obtain ⟨items, b₁, hitems, hpure⟩ := yields_bind.1 h
      obtain ⟨rfl, -⟩ := yields_pure.1 hpure
      obtain rfl := eq_of_yields_itemsOf hi hitems
      rfl

end Schema

namespace Building

variable {doc : Document} {entity : String} {key : Scalar} {schema : Value}
  {required : Bool} {p : Property} {b b' : Build}

theorem exists_of_yields_ofPointer {pointer : Value} {ancestry : List String} {name : String}
    (h : Yields (ofPointer doc pointer ancestry) b name b') :
    ∃ node, doc.entity? pointer = some (name, node) := by
  obtain ⟨⟨segment, node⟩, b₁, hlift, h₁⟩ := yields_bind.1 h
  obtain ⟨hnode, rfl⟩ := yields_lift.1 hlift
  obtain ⟨_, b₂, -, hpure⟩ := yields_bind.1 h₁
  obtain ⟨rfl, rfl⟩ := yields_pure.1 hpure
  exact ⟨node, Document.entity?_eq_some.2 ⟨segment, hnode, rfl⟩⟩

theorem exists_of_yields_refer {m : Building String} {make : String → Except Fault Property}
    (h : Yields (do
      let target ← m
      modifyRegistry fun r => r.modify entity fun e => e.addUse target
      some <$> liftM (make target)) b (some p) b') :
    ∃ target b₁, Yields m b target b₁ ∧ make target = .ok p := by
  obtain ⟨target, b₁, hm, h₁⟩ := yields_bind.1 h
  obtain ⟨_, b₂, -, h₂⟩ := yields_bind.1 h₁
  obtain ⟨q, hlift, hq⟩ := yields_map.1 h₂
  obtain rfl := Option.some.inj hq
  exact ⟨target, b₁, hm, (yields_lift.1 hlift).1⟩

/-- The property that is made is the one that the declaration tells. -/
theorem property?_of_yields_makeProperty {refer : Value → Building String}
    (hrefer : ∀ p b t b', Yields (refer p) b t b' → ∃ v, doc.entity? p = some (t, v))
    (h : Yields (makeProperty refer doc entity key schema required) b (some p) b') :
    (Schema.Contribution.property key schema required).property? doc = some p := by
  unfold makeProperty at h
  split at h
  · obtain ⟨hnone, -⟩ := yields_pure.1 h
    cases hnone
  · next hmap =>
      replace hmap : schema.isMap = true := by simpa using hmap
      obtain ⟨t, b₁, hlift, h₁⟩ := yields_bind.1 h
      obtain ⟨ht, rfl⟩ := yields_lift.1 hlift
      have htyping : (Schema.Contribution.property key schema required).typing? doc = some t := by
        simp [Schema.Contribution.typing?, hmap, ht, Except.toOption]
      change ((Schema.Contribution.property key schema required).typing? doc).bind _ = some p
      rw [htyping]
      cases t with
      | unsupported =>
          obtain ⟨_, b₂, -, hpure⟩ := yields_bind.1 h₁
          obtain ⟨hnone, -⟩ := yields_pure.1 hpure
          cases hnone
      | plain type format description items =>
          obtain ⟨q, hlift, hq⟩ := yields_map.1 h₁
          obtain rfl := Option.some.inj hq
          exact toOption_eq_some.2 (yields_lift.1 hlift).1
      | entity pointer description =>
          obtain ⟨target, b₂, hr, hmade⟩ := exists_of_yields_refer h₁
          obtain ⟨node, hnode⟩ := hrefer _ _ _ _ hr
          simp only [Option.bind_some, Schema.Typing.property?, hnode]
          exact toOption_eq_some.2 hmade
      | entities pointer description =>
          obtain ⟨target, b₂, hr, hmade⟩ := exists_of_yields_refer h₁
          obtain ⟨node, hnode⟩ := hrefer _ _ _ _ hr
          simp only [Option.bind_some, Schema.Typing.property?, hnode]
          exact toOption_eq_some.2 hmade

/-- A property below any chain of entities and a field of a body are made of one schema.  The field
says what the schema says, and the property says it in texts: the two say the same exactly if none
of it is bytes. -/
theorem reading_eq_iff_of_yields {ancestry : List String} {name : String} {required' : Bool}
    {q : Parameter} {c c' : Build} (hshape : Schema.HasShape schema)
    (hp : Yields (makeProperty (fun pointer => ofPointer doc pointer ancestry) doc entity key schema
      required) b (some p) b')
    (hq : Yields (Parameter.ofField doc name schema required') c q c') :
    Schema.Tells doc schema q.reading ∧ p.reading = q.reading.held ∧
      (q.reading = p.reading ↔ q.reading.IsFreeOfBytes) := by
  have hproperty := property?_of_yields_makeProperty
    (fun _ _ _ _ h => exists_of_yields_ofPointer h) hp
  obtain ⟨htells, hreading, hheld⟩ := Schema.madeOf_of_property? hproperty hshape
  obtain rfl := Schema.reading_of_yields_ofField htells hq
  exact ⟨htells, hreading, by rw [hreading, eq_comm, hheld]⟩

/-- Everything that is known of an owner of pets. -/
def petKeeper : Document := .ofValue <| .map 0 [
  (.str "components", .map 1 [(.str "schemas", .map 2 [
    (.str "Pet", .map 3 [(.str "type", .str "object"), (.str "properties", .map 4 [
      (.str "name", .map 5 [(.str "type", .str "string")])])])])])]

/-- A list of pets, or nothing. -/
def petList : Value := .map 6 [
  (.str "type", .seq [.str "null", .str "array"]), (.str "description", .str "All pets"),
  (.str "items", Schema.referenceTo (.str "#/components/schemas/Pet"))]

theorem makeProperty_petList :
    (outcome (makeProperty (fun pointer => ofPointer petKeeper pointer ["Keeper"]) petKeeper
      "Keeper" (.str "pets") petList true) {}).1.toOption =
      some (some ⟨"pets", true, "array", none, some "All pets", some "Pet"⟩) := by
  decide +kernel

theorem ofField_petList :
    ((outcome (Parameter.ofField petKeeper "pets" petList false) {}).1.toOption.map
      (·.reading)) = some ⟨.str "array", .null, .str "Pet", .str "All pets"⟩ := by
  decide +kernel

/-- A list of pets is typed alike as a property of its keeper and as a field. -/
theorem reading_eq_petList : ∃ p q b' c',
    Yields (makeProperty (fun pointer => ofPointer petKeeper pointer ["Keeper"]) petKeeper
      "Keeper" (.str "pets") petList true) {} (some p) b' ∧
    Yields (Parameter.ofField petKeeper "pets" petList false) {} q c' ∧
    q.reading = p.reading := by
  have hnames : Schema.Names (petList.get "type") "array" :=
    @Schema.Names.list [.str "null"] [] "array" (by simp) (by decide)
  have hshape : Schema.HasShape petList := .named hnames fun _ => .inr (.inl ⟨_, rfl⟩)
  have hp := yields_outcome (toOption_eq_some.1 makeProperty_petList)
  obtain ⟨q, hq, hreading⟩ := Option.map_eq_some_iff.1 ofField_petList
  have hq := yields_outcome (toOption_eq_some.1 hq)
  refine ⟨_, q, _, _, hp, hq, (reading_eq_iff_of_yields hshape hp hq).2.2.2 ?_⟩
  rw [hreading]
  simp [Schema.Reading.IsFreeOfBytes]

/-- A text with a description in bytes. -/
def petNote : Value := .map 6 [
  (.str "type", .str "string"), (.str "description", .scalar (.bytes [0x68, 0x69]))]

theorem makeProperty_petNote :
    (outcome (makeProperty (fun pointer => ofPointer petKeeper pointer ["Keeper"]) petKeeper
      "Keeper" (.str "note") petNote false) {}).1.toOption =
      some (some ⟨"note", false, "string", none, some "hi", none⟩) := by
  decide +kernel

theorem ofField_petNote :
    ((outcome (Parameter.ofField petKeeper "note" petNote false) {}).1.toOption.map
      (·.reading)) =
      some ⟨.str "string", .null, .null, .scalar (.bytes [0x68, 0x69])⟩ := by
  decide +kernel

/-- A text whose description is bytes is described apart as a property and as a field. -/
theorem not_reading_eq_petNote : ∃ p q b' c', Schema.HasShape petNote ∧
    Yields (makeProperty (fun pointer => ofPointer petKeeper pointer ["Keeper"]) petKeeper
      "Keeper" (.str "note") petNote false) {} (some p) b' ∧
    Yields (Parameter.ofField petKeeper "note" petNote false) {} q c' ∧
    q.reading ≠ p.reading := by
  have hshape : Schema.HasShape petNote := .named (.text "string") fun h => absurd h (by decide)
  have hp := yields_outcome (toOption_eq_some.1 makeProperty_petNote)
  obtain ⟨q, hq, hreading⟩ := Option.map_eq_some_iff.1 ofField_petNote
  have hq := yields_outcome (toOption_eq_some.1 hq)
  refine ⟨_, q, _, _, hshape, hp, hq, ?_⟩
  rw [hreading]
  decide

end Building

end OpenApiClient
