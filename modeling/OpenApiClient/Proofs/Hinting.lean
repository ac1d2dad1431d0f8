import OpenApiClient.Php.Classes
import OpenApiClient.Proofs.References
import OpenApiClient.Proofs.Typing

/-!
# Entities as types of parameters and properties

An entity is named after the last segment of a pointer, with the capital form of its first
character.  So its name is never that of a primitive type; but not every character has a capital
form, and PHP is told of a class only by names that start with a capital letter.  All other names
are shown as any type, although expressions build objects of the class all the same: a name stands
for itself exactly if it starts with a capital letter, and exactly then the parameters and
properties which hold the entity show its class.
-/

namespace OpenApiClient

open Walk

namespace Text

/-- No shift to capital letters ends at a small letter of ASCII. -/
theorem isLower_shiftCase_toCapital {c : Char} (hc : 128 ≤ c.toNat) :
    (shiftCase toCapital c).isLower = false := by
  have hlower (n : Nat) (hn : n < 97 ∨ 122 < n) : (Char.ofNat n).isLower = false := by
    have hval : (Char.ofNat n).toNat = n ∨ (Char.ofNat n).toNat = 0 := by
      by_cases hvalid : n.isValidChar
      · exact .inl (by rw [Char.ofNat, dif_pos hvalid]; rfl)
      · exact .inr (by rw [Char.ofNat, dif_neg hvalid]; rfl)
    refine Bool.and_eq_false_iff.2 ?_
    rw [decide_eq_false_iff_not, decide_eq_false_iff_not]
    change ¬ 97 ≤ (Char.ofNat n).toNat ∨ ¬ (Char.ofNat n).toNat ≤ 122
    omega
  have htable : ∀ s ∈ toCapital,
      s.source.last + s.distance < 97 ∨ 122 < s.source.first + s.distance := by
    decide +kernel
  unfold shiftCase
  split
  · next s hs =>
      have hcontains := List.find?_some hs
      have hends := htable s (List.mem_of_find?_eq_some hs)
      simp only [Stretch.contains, Bool.and_eq_true, decide_eq_true_eq] at hcontains
      exact hlower _ (by omega)
  · rw [← Char.ofNat_toNat c]
    exact hlower _ (by omega)

/-- No capital form starts with a small letter of ASCII. -/
theorem isLower_head?_capitalOf (c : Char) : (capitalOf c).head?.any Char.isLower = false := by
  have hascii : ∀ n < 128, (Char.ofNat n).toUpper.isLower = false := by decide +kernel
  have hsequences :
      ∀ q ∈ capitalSequences, (q.2.map Char.ofNat).head?.any Char.isLower = false := by
    decide +kernel
  unfold capitalOf
  split
  · next hc =>
      rw [← Char.ofNat_toNat c]
      exact hascii _ hc
  · next hc =>
      split
      · next cs hcs =>
          obtain ⟨before, after, heq, -⟩ := List.lookup_eq_some_iff.1 hcs
          exact hsequences (c.toNat, cs) (heq ▸ List.mem_append_right _ List.mem_cons_self)
      · exact isLower_shiftCase_toCapital (Nat.le_of_not_lt hc)

theorem capitalOf_ne_nil (c : Char) : capitalOf c ≠ [] := by
  have hsequences : ∀ q ∈ capitalSequences, q.2 ≠ [] := by decide +kernel
  unfold capitalOf
  split
  · exact List.cons_ne_nil _ _
  · split
    · next cs hcs =>
        obtain ⟨before, after, heq, -⟩ := List.lookup_eq_some_iff.1 hcs
        have := hsequences (c.toNat, cs) (heq ▸ List.mem_append_right _ List.mem_cons_self)
        simpa using this
    · exact List.cons_ne_nil _ _

/-- With a capital in front, a text does not start with a small letter of ASCII. -/
theorem isLower_head?_capitalizeFirst (s : String) :
    (capitalizeFirst s).toList.head?.any Char.isLower = false := by
  unfold capitalizeFirst
  split
  · rfl
  · next c rest _ =>
      rw [String.toList_ofList, List.head?_append_of_ne_nil _ (capitalOf_ne_nil c)]
      exact isLower_head?_capitalOf c

end Text

namespace Php

/-- A name stands for itself: it is the PHP type of that name whatever the format is, and lists of
it are written with it. -/
structure StandsForItself (name : String) : Prop where
  hint (format : Value) : typeOfValue (.str name) format = .ok name
  list : docTypeOfValue (.str "array") .null (.str name) = .ok (name ++ "[]")

section Names

variable {name : String}

/-- Primitive types start with small letters, and so does what stands for any type. -/
theorem lookup_primitives (h : name.toList.head?.any Char.isLower = false) :
    primitives.lookup name = none ∧ name ≠ mixed := by
  have hsmall : ∀ q ∈ primitives, q.1.toList.head?.any Char.isLower = true := by decide +kernel
  constructor
  · refine List.lookup_eq_none_iff.2 fun q hq => ?_
    rw [bne_iff_ne]
    rintro rfl
    exact absurd (hsmall q hq) (by rw [h]; decide)
  · rintro rfl
    exact absurd h (by decide +kernel)

/-- Whatever the format is, the type of such a name is the name itself or any type. -/
theorem typeOf_eq_self_iff (h : name.toList.head?.any Char.isLower = false) (binary : Bool) :
    typeOf name binary = name ↔ startsCapital name = true := by
  obtain ⟨hprimitive, hmixed⟩ := lookup_primitives h
  unfold typeOf
  rw [hprimitive]
  dsimp only
  split
  · next hcapital => exact iff_of_true rfl hcapital
  · next hcapital => exact iff_of_false hmixed.symm hcapital

/-- Without items, the documented type is the type. -/
theorem docTypeOfValue_null (type format : Value) :
    docTypeOfValue type format .null = typeOfValue type format := by
  unfold docTypeOfValue
  rw [show Value.null.isFilled = false from rfl, Bool.and_false]
  exact if_neg Bool.false_ne_true

/-- The documented type of a list, by the name of its items. -/
theorem docTypeOfValue_array (name : String) (format : Value) :
    docTypeOfValue (.str "array") format (.str name) =
      .ok (docType "array" none (some name)) := by
  have harray : (Value.str "array").same (.str "array") = true := by simp [Value.same]
  unfold docTypeOfValue docType
  rw [harray]
  by_cases hname : name = ""
  · subst hname
    rfl
  · simp [Value.isFilled, hname, typeOfValue, Except.map, Value.same]
    rfl

/-- A list is written with the name of its items exactly if that starts with a capital letter. -/
theorem docType_array_iff (h : name.toList.head?.any Char.isLower = false)
    (format : Option String) :
    docType "array" format (some name) = name ++ "[]" ↔ startsCapital name = true := by
  unfold docType
  by_cases hname : name = ""
  · subst hname
    have harray : ∀ binary, typeOf "array" binary ≠ "" ++ "[]" := by decide
    exact iff_of_false (harray (format = some "binary")) (by decide)
  · simp only [hname, ne_eq, not_false_eq_true, decide_true, Bool.and_self, if_true]
    rw [String.append_left_inj, typeOf_eq_self_iff h]

/-- A name stands for itself exactly if it starts with a capital letter. -/
theorem standsForItself_iff (h : name.toList.head?.any Char.isLower = false) :
    StandsForItself name ↔ startsCapital name = true := by
  constructor
  · intro hname
    exact (typeOf_eq_self_iff h _).1 (Except.ok.inj (hname.hint .null))
  · intro hcapital
    refine ⟨fun format => congrArg Except.ok ((typeOf_eq_self_iff h _).2 hcapital), ?_⟩
    rw [docTypeOfValue_array, (docType_array_iff h none).2 hcapital]

end Names

end Php

theorem Building.isLower_head?_of_yields_ofPointer {doc : Document} {pointer : Value}
    {ancestry : List String} {b b' : Build} {name : String}
    (h : Yields (ofPointer doc pointer ancestry) b name b') :
    name.toList.head?.any Char.isLower = false := by
  obtain ⟨node, hnode⟩ := exists_of_yields_ofPointer h
  obtain ⟨segment, -, rfl⟩ := Document.entity?_eq_some.1 hnode
  exact Text.isLower_head?_capitalizeFirst segment

namespace Parameter

/-- What a method shows of a parameter: the type before its variable, and the type in its
documentation.  A parameter that is not required may be null. -/
structure Shows (p : Parameter) (hint type : String) : Prop where
  declared : Php.parameterDeclaration p = .ok (if p.required then hint ++ " $" ++ p.variableName
    else "?" ++ hint ++ " $" ++ p.variableName ++ " = null")
  documented : Php.parameterDocType p = .ok (if p.required then type else type ++ "|null")

theorem shows_of_types {p : Parameter} {hint type : String} (hmixed : hint ≠ Php.mixed)
    (hhint : Php.typeOfValue p.type p.format = .ok hint)
    (htype : Php.docTypeOfValue p.type p.format p.items = .ok type) : p.Shows hint type := by
  have hdollar (s : String) : " " ++ ("$" ++ s) = " $" ++ s := by
    rw [← String.append_assoc, show " " ++ "$" = " $" by decide]
  constructor
  · unfold Php.parameterDeclaration
    rw [hhint]
    cases p.required <;> simp [Except.map, hmixed, String.append_assoc, hdollar]
  · unfold Php.parameterDocType
    rw [htype]
    rfl

/-- The documentation of a parameter tells its documented type. -/
theorem Shows.docType {p : Parameter} {hint type : String} (h : p.Shows hint type) :
    Php.docTypeOfValue p.type p.format p.items = .ok type := by
  obtain ⟨t, ht, heq⟩ := map_eq_ok.1 h.documented
  rw [ht]
  cases hrequired : p.required <;> simp_all

/-- A list in a body has the type of lists. -/
theorem type_of_yields_ofField {doc : Document} {name : String} {schema : Value} {required : Bool}
    {p : Parameter} {b b' : Build} (h : Yields (ofField doc name schema required) b p b')
    (hr : schema.reference? = none)
    (ha : (Schema.declaredType schema).same (.str "array") = true) :
    p.type = .str "array" ∧ p.format = .null := by
  unfold ofField at h
  dsimp only at h
  split at h
  · next hmap =>
      have hget : schema.get? "type" = none := by
        cases schema with
        | map => cases hmap
        | _ => rfl
      unfold Schema.declaredType at ha
      rw [hget] at ha
      exact absurd ha (by decide)
  · rw [hr] at h
    obtain ⟨items, b₁, -, hpure⟩ := yields_bind.1 h
    obtain ⟨rfl, -⟩ := yields_pure.1 hpure
    exact ⟨Value.eq_of_same_str ha, rfl⟩

end Parameter

theorem Value.ofText?_inj {a b : Option String} (h : ofText? a = ofText? b) : a = b := by
  cases a <;> cases b <;> simp_all [ofText?]

/-- What a property says of its type is read off its schema. -/
theorem Property.propertyType_of_reading {p : Property} {type : String} (items : Option String)
    {description : Value}
    (h : p.reading = Schema.Reading.held ⟨.str type, .null, .ofText? items, description⟩) :
    p.type = type ∧ p.items = items ∧ Php.propertyType p = Php.docType type none items := by
  have hplain : Fields.plain (.ofText? items) = .ofText? items := by cases items <;> rfl
  simp only [reading, Schema.Reading.held, hplain, Fields.plain_str, Schema.Reading.mk.injEq] at h
  obtain ⟨htype, hformat, hitems, -⟩ := h
  have hformat : p.format = none := Value.ofText?_inj hformat
  have hitems : p.items = items := Value.ofText?_inj hitems
  have htype : p.type = type := by simpa using htype
  exact ⟨htype, hitems, by rw [Php.propertyType, htype, hformat, hitems]⟩

/-- A reference that leads to no scalar tells the name of the entity. -/
theorem Schema.Tells.of_reference {doc : Document} {schema pointer : Value} {reading : Reading}
    (h : Tells doc schema reading) (hr : schema.reference? = some pointer)
    (hs : scalarTarget? doc pointer = .ok none) : ∃ name node,
      doc.entity? pointer = some (name, node) ∧
      reading = ⟨.str name, .null, .null, schema.get "description"⟩ := by
  cases h with
  | scalar hr' hs' =>
      obtain rfl := Option.some.inj (hr.symm.trans hr')
      cases hs.symm.trans hs'
  | entity hr' _ he =>
      obtain rfl := Option.some.inj (hr.symm.trans hr')
      exact ⟨_, _, he, rfl⟩
  | plain hr' => cases hr.symm.trans hr'
  | array hr' => cases hr.symm.trans hr'

/-- A list whose items refer to no scalar tells the name of the entity for its items. -/
theorem Schema.Tells.of_items {doc : Document} {schema pointer : Value} {reading : Reading}
    (h : Tells doc schema reading) (hr : schema.reference? = none)
    (ht : typeName? (schema.get "type") = some (.str "array"))
    (hi : (schema.get "items").reference? = some pointer)
    (hs : scalarTarget? doc pointer = .ok none) : ∃ name node,
      doc.entity? pointer = some (name, node) ∧
      reading = ⟨.str "array", .null, .str name, schema.get "description"⟩ := by
  cases h with
  | scalar hr' => cases hr.symm.trans hr'
  | entity hr' => cases hr.symm.trans hr'
  | plain _ hnames hne =>
      have htype := ht.symm.trans (typeName?_eq_some_str.2 hnames)
      exact absurd (by simpa using htype.symm) hne
  | array _ _ hitems =>
      cases hitems with
      | scalar hi' hs' =>
          obtain rfl := Option.some.inj (hi.symm.trans hi')
          cases hs.symm.trans hs'
      | entity hi' _ he =>
          obtain rfl := Option.some.inj (hi.symm.trans hi')
          exact ⟨_, _, he, rfl⟩
      | named hi' => cases hi.symm.trans hi'
      | nothing hmap =>
          generalize schema.get "items" = items at hi hmap
          cases items with
          | map => cases hmap
          | _ => cases hi

theorem Expression.type?_ofResponse (r : Registry) (type : String) (isArray : Bool) :
    (ofResponse r type isArray).type? = some type := by
  cases isArray <;> exact type?_ofType r [] type _ _

namespace Library

variable {d : Description} {s : Settings} {l : Library} {operations : List Operation}
  {ps : List PlacedOperation} {tagged : List (Bucket × List Route × List String)}
  {x final : Assembly}

/-- Where the schema of a field of a body refers to an entity, as its type or as the type of its
items, the parameter shows the class of the entity exactly if the name of the entity starts with a
capital letter. -/
structure ShowsField (l : Library) (doc : Document) (schema : Value) (p : Parameter) : Prop where
  type (pointer : Value) : schema.reference? = some pointer →
    Schema.scalarTarget? doc pointer = .ok none →
    ∃ name, l.Leads doc pointer name ∧ (p.Shows name name ↔ Php.startsCapital name = true)
  items (pointer : Value) : schema.reference? = none →
    (Schema.declaredType schema).same (.str "array") = true →
    (schema.get "items").reference? = some pointer → Schema.scalarTarget? doc pointer = .ok none →
    ∃ name, l.Leads doc pointer name ∧
      (p.Shows "array" (name ++ "[]") ↔ Php.startsCapital name = true)

/-- Where the schema of a property refers to an entity, as its type or as the type of its items, the
expression for the property stands for that entity; the property is documented with its class
exactly if the name of the entity starts with a capital letter. -/
structure ShowsProperty (l : Library) (doc : Document) (schema : Value) (p : Property) : Prop where
  type (pointer : Value) : schema.reference? = some pointer →
    Schema.scalarTarget? doc pointer = .ok none →
    ∃ name, l.Leads doc pointer name ∧
      (Php.propertyType p = name ↔ Php.startsCapital name = true) ∧
      ∀ ancestry binding path,
        (Expression.ofProperty l.registry ancestry p binding path).type? = some name
  items (pointer : Value) : schema.reference? = none →
    Schema.typeName? (schema.get "type") = some (.str "array") →
    (schema.get "items").reference? = some pointer → Schema.scalarTarget? doc pointer = .ok none →
    ∃ name, l.Leads doc pointer name ∧
      (Php.propertyType p = name ++ "[]" ↔ Php.startsCapital name = true) ∧
      ∀ ancestry binding path,
        (Expression.ofProperty l.registry ancestry p binding path).type? = some name

/-- What responses are turned into are objects of entities, and these are shown as classes by the
parameters and properties that hold them as far as their names start with capital letters. -/
structure ShowsClasses (l : Library) (d : Description) (s : Settings) : Prop where
  response {kind : ClassKind} {className : String} {m : Route} : HasMethod l kind className m →
    ∀ r ∈ m.responses.both, ∀ type, r.namedType? = some type →
      (∃ pointer, l.Leads d.document pointer type) ∧
        ∃ e, r.expression = some e ∧ e.type? = some type
  field {kind : ClassKind} {className : String} {m : Route} : HasMethod l kind className m →
    ∀ q ∈ m.bodyParameters, ∃ schema,
      m.operation.fieldSchema? d.document q.2.name = some schema ∧
        l.ShowsField d.document schema q.2
  property : ∀ c ∈ l.resources, ∀ p ∈ c.properties, ∃ used key schema required,
    (c.name, used) ∈ (built d s (classified d s)).completed ∧
    Schema.Declares d.document used key schema required ∧
    (Schema.Contribution.property key schema required).property? d.document = some p ∧
    l.ShowsProperty d.document schema p

theorem HasResource.contains {name : String} (h : l.HasResource name) :
    l.registry.contains name = true := by
  obtain ⟨c, hc, rfl⟩ := h
  rw [Registry.contains_iff_mem_names]
  refine List.mem_map.2 ⟨_, List.mem_map_of_mem (List.mem_of_find?_eq_some hc), rfl⟩

namespace Leads

variable {doc : Document} {pointer : Value} {name : String}

theorem isLower_head? (h : l.Leads doc pointer name) :
    name.toList.head?.any Char.isLower = false := by
  obtain ⟨node, hnode⟩ := h.1
  obtain ⟨segment, -, rfl⟩ := Document.entity?_eq_some.1 hnode
  exact Text.isLower_head?_capitalizeFirst segment

/-- A property that has the name of an entity for its type holds that entity. -/
theorem shape_of_type (h : l.Leads doc pointer name) {p : Property} (ht : p.type = name)
    (hi : p.items = none) : l.registry.shape p = .entity name := by
  unfold Registry.shape
  rw [hi, Option.filter_none, ht]
  simp [h.2.contains]

/-- A list that has the name of an entity for its items holds a list of that entity. -/
theorem shape_of_items (h : l.Leads doc pointer name) {p : Property} (ht : p.type = "array")
    (hi : p.items = some name) : l.registry.shape p = .entities name := by
  unfold Registry.shape
  rw [hi, ht, Option.filter_some, if_pos h.2.contains]
  rfl

end Leads

/-- Properties are documented with the entities that their schemas refer to. -/
theorem LinksProperty.showsProperty {doc : Document} {key : Scalar} {schema : Value}
    {required : Bool} {p : Property} (h : l.LinksProperty doc schema p)
    (hp : (Schema.Contribution.property key schema required).property? doc = some p) :
    l.ShowsProperty doc schema p := by
  constructor
  case type =>
    intro pointer hr hs
    have hleads := h.type pointer hr hs
    obtain ⟨htells, hreading, -⟩ := Schema.madeOf_of_property? hp (.reference hr)
    obtain ⟨name, node, he, rfl⟩ := htells.of_reference hr hs
    obtain ⟨htype, hitems, hdocumented⟩ :=
      Property.propertyType_of_reading none hreading
    refine ⟨p.type, hleads, ?_, fun ancestry binding path => ?_⟩
    · rw [hdocumented, htype]
      exact Php.typeOf_eq_self_iff (htype ▸ hleads.isLower_head?) _
    · rw [Expression.type?_ofProperty, hleads.shape_of_type rfl hitems]
      rfl
  case items =>
    intro pointer hr ht hi hs
    obtain ⟨name, hname, hleads⟩ := h.items pointer hr ht hi hs
    have hshape : Schema.HasShape schema :=
      .named (Schema.typeName?_eq_some_str.1 ht) fun _ => .inr (.inl ⟨pointer, hi⟩)
    obtain ⟨htells, hreading, -⟩ := Schema.madeOf_of_property? hp hshape
    obtain ⟨name', node, he, rfl⟩ := htells.of_items hr ht hi hs
    obtain ⟨htype, hitems, hdocumented⟩ :=
      Property.propertyType_of_reading (some name') hreading
    obtain rfl : name' = name := Option.some.inj (hitems.symm.trans hname)
    refine ⟨name', hleads, ?_, fun ancestry binding path => ?_⟩
    · rw [hdocumented]
      exact Php.docType_array_iff hleads.isLower_head? _
    · rw [Expression.type?_ofProperty, hleads.shape_of_items htype hitems]
      rfl

/-- Fields of bodies are shown with the entities that their schemas refer to. -/
theorem showsField_of_yields {doc : Document} {name : String} {schema : Value} {required : Bool}
    {p : Parameter} {b b' : Build}
    (h : Yields (Parameter.ofField doc name schema required) b p b')
    (hleads : ∀ pointer type, Yields (Building.ofPointer doc pointer []) b type b' →
      l.Leads doc pointer type) : l.ShowsField doc schema p := by
  have hfield := Parameter.isField_of_yields_ofField h
  constructor
  case type =>
    intro pointer hr hs
    obtain ⟨type, htype, hmake⟩ := hfield.type pointer hr hs
    have hlead := hleads pointer type hmake
    obtain ⟨node, he⟩ := hlead.1
    have hreading := Schema.reading_of_yields_ofField (.entity hr hs he) h
    simp only [Parameter.reading, Schema.Reading.mk.injEq] at hreading
    obtain ⟨-, hformat, hitems, -⟩ := hreading
    refine ⟨type, hlead, fun hshows => ?_, fun hcapital => ?_⟩
    · have hdocumented := hshows.docType
      rw [htype, hformat, hitems, Php.docTypeOfValue_null] at hdocumented
      exact (Php.typeOf_eq_self_iff hlead.isLower_head? _).1 (Except.ok.inj hdocumented)
    · have hself := (Php.standsForItself_iff hlead.isLower_head?).2 hcapital
      refine Parameter.shows_of_types (Php.lookup_primitives hlead.isLower_head?).2 ?_ ?_
      · rw [htype]
        exact hself.hint _
      · rw [htype, hitems, Php.docTypeOfValue_null]
        exact hself.hint _
  case items =>
    intro pointer hr ha hi hs
    obtain ⟨type, hitems, hmake⟩ := hfield.items pointer hr ha hi hs
    have hlead := hleads pointer type hmake
    obtain ⟨htype, hformat⟩ := Parameter.type_of_yields_ofField h hr ha
    refine ⟨type, hlead, fun hshows => ?_, fun hcapital => ?_⟩
    · have hdocumented := hshows.docType
      rw [htype, hformat, hitems, Php.docTypeOfValue_array] at hdocumented
      exact (Php.docType_array_iff hlead.isLower_head? none).1 (Except.ok.inj hdocumented)
    · have hself := (Php.standsForItself_iff hlead.isLower_head?).2 hcapital
      refine Parameter.shows_of_types (by decide) ?_ ?_
      · rw [htype, hformat]
        rfl
      · rw [htype, hformat, hitems]
        exact hself.list

namespace HasParts

/-- The types of responses are entities, and expressions stand for them. -/
theorem exists_of_namedType? (h : HasParts l d s (classified d s) tagged x final)
    (hr : (classified d s).Reflects d.document operations ps) {kind : ClassKind}
    {className : String} {m : Route} (hm : HasMethod l kind className m) {r : Response}
    (hmem : r ∈ m.responses.both) {type : String} (ht : r.namedType? = some type) :
    (∃ pointer, l.Leads d.document pointer type) ∧
      ∃ e, r.expression = some e ∧ e.type? = some type := by
  obtain ⟨e, y, y', -, -, hamong⟩ := h.madeOf.method hm
  obtain ⟨z, hat, hgrows⟩ := hamong.exists_completedAt
  refine ⟨?_, _, by rw [hat.isBuiltBy r hmem, ht, Option.map_some], ?_⟩
  · obtain ⟨done, first, rest, hes, hsteps, -, -, hresponses⟩ := hat
    rw [hresponses] at hmem
    obtain ⟨r₀, h₀, rfl⟩ := Responses.exists_of_mem_complete hmem
    have htype : r₀.typeName = some type := by
      rw [← Response.typeName_complete]
      exact Response.typeName_of_namedType? ht
    obtain ⟨b, b', hanalyze, hg⟩ :=
      hr.analyzed _ (hr.placed_of_mem_agenda (e := first) (by simp [hes]))
    obtain ⟨read, hboth, -, hread⟩ := Operation.isRead_of_yields_analyze hanalyze
    obtain ⟨q, hq, rfl⟩ := List.mem_map.1 (hboth ▸ h₀)
    obtain ⟨b₁, b₂, hisread, hg₂⟩ := hread q hq
    obtain ⟨pointer, hmake⟩ := hisread.type type htype
    have hstart : (classified d s).build.Grows z.2 := hsteps.grows
    exact ⟨pointer, h.leads hmake
      (trans_of Build.Grows hg₂ (trans_of Build.Grows hg (trans_of Build.Grows hstart hgrows)))⟩
  · exact Expression.type?_ofResponse _ type r.isArray

/-- The fields of the bodies of methods are shown with the entities that their schemas refer to. -/
theorem showsField (h : HasParts l d s (classified d s) tagged x final) {kind : ClassKind}
    {className : String} {m : Route} (hm : HasMethod l kind className m) {q : String × Parameter}
    (hq : q ∈ m.bodyParameters) : ∃ schema,
      m.operation.fieldSchema? d.document q.2.name = some schema ∧
        l.ShowsField d.document schema q.2 := by
  obtain ⟨e, y, y', -, -, hamong⟩ := h.madeOf.method hm
  obtain ⟨done, rest, -, -, hmakes, hrest⟩ := hamong
  obtain ⟨y₁, b₁, -, -, -, -, hbody, hmethod, hoperation⟩ := exists_of_makes hmakes
  obtain ⟨name, schema, required, b₂, b₃, hschema, hfield, hg₃⟩ :=
    Parameter.exists_ofField_of_yields_inBody hbody hq
  have hname := (Parameter.isField_of_yields_ofField hfield).name
  have hfinal : b₃.Grows final.2 := trans_of Build.Grows hg₃
    (trans_of Build.Grows ((keeps_ofMethod _ _ _ _).of_yields hmethod) hrest.grows)
  exact ⟨schema, by rw [hoperation, hname, hschema],
    showsField_of_yields hfield fun pointer type hmake => h.leads hmake hfinal⟩

/-- Every property of a resource is declared by a schema that was used up for the resource. -/
theorem exists_makes (h : HasParts l d s (classified d s) tagged x final)
    (hlinked : final.2.Linked d.document [])
    (hnodup : (l.resources.map (·.name)).Nodup) {c : ResourceClass} (hc : c ∈ l.resources)
    {p : Property} (hp : p ∈ c.properties) :
    ∃ used, (c.name, used) ∈ final.2.completed ∧ Schema.Makes d.document used p := by
  have hfound : l.resource? c.name = some c := find?_key_of_nodup hnodup hc
  have hproperties : final.2.registry.properties? c.name = some c.properties := by
    rw [← h.madeOf.properties?, properties?, hfound, Option.map_some]
  have hmem : p ∈ final.2.registry.propertiesOf c.name := by
    rw [show final.2.registry.propertiesOf c.name =
      (final.2.registry.properties? c.name).getD [] from rfl, hproperties]
    exact hp
  obtain ⟨used, hused, hmakes⟩ := hlinked.made c.name p hmem
  exact ⟨used, hused.resolve_left List.not_mem_nil, hmakes⟩

end HasParts

theorem showsClasses_of_ofDescription (h : (ofDescription d s).1 = .ok l) :
    l.ShowsClasses d s := by
  obtain ⟨hclassified, tagged, x, final, hparts⟩ := exists_hasParts h
  obtain ⟨ps, hreflects, hps⟩ := Classification.exists_reflects hclassified
  have hwrites : ({} : Build).Writes (classified d s).build :=
    Classification.writes_of_yields_addOperations hclassified
  have hnodup := (hparts.followsTags hwrites hreflects hps).nodup_resources
  have hlinked := hparts.linked hclassified
  constructor
  case response => exact fun hm r hr type ht => hparts.exists_of_namedType? hreflects hm hr ht
  case field => exact fun hm q hq => hparts.showsField hm hq
  case property =>
    intro c hc p hp
    obtain ⟨used, hused, key, schema, required, hd, hproperty⟩ :=
      hparts.exists_makes hlinked hnodup hc hp
    rw [show (built d s (classified d s)).completed = final.2.completed from hparts.built.2]
    exact ⟨used, key, schema, required, hused, hd, hproperty,
      (hparts.linksProperty hlinked hused hd hproperty).showsProperty hproperty⟩

/-- The name of an entity stands for itself, whatever the format is and for lists of it, exactly if
it starts with a capital letter; and exactly then the class of which expressions build objects is
shown by the parameters of bodies and the properties whose schemas refer to the entity. -/
theorem standsForItself_and_showsClasses (doc : Document) (d : Description) (s : Settings) :
    (∀ pointer ancestry b name b',
      Yields (Building.ofPointer doc pointer ancestry) b name b' →
        (Php.StandsForItself name ↔ Php.startsCapital name = true)) ∧
    ∀ l, (ofDescription d s).1 = .ok l → l.ShowsClasses d s := by
  constructor
  · intro pointer ancestry b name b' h
    exact Php.standsForItself_iff (Building.isLower_head?_of_yields_ofPointer h)
  · intro l h
    exact showsClasses_of_ofDescription h

/-- What a method returns, and what it shows of its body. -/
def shown (_ : Library) (m : Route) : Option String × List (Option String × Option String) :=
  (m.returnType, m.bodyParameters.map fun q =>
    ((Php.parameterDeclaration q.2).toOption, (Php.parameterDocType q.2).toOption))

theorem shown_petFriends : ofFirstMethod petFriends shown = some (.manager, "Pets", some "Pet",
    [(some "?Chip $chip = null", some "Chip|null"),
      (some "?array $friends = null", some "Pet[]|null")]) := by
  decide +kernel

/-- Pets show their class to their friends. -/
theorem showsClasses_petFriends : ∃ d l m b',
    Description.ofDocument petFriends "3.0.0" = .ok d ∧ (ofDescription d {}).1 = .ok l ∧
    HasMethod l .manager "Pets" m ∧ shown l m = (some "Pet",
      [(some "?Chip $chip = null", some "Chip|null"),
        (some "?array $friends = null", some "Pet[]|null")]) ∧
    Yields (Building.ofPointer petFriends (.str "#/components/schemas/pet") []) {} "Pet" b' ∧
    Php.StandsForItself "Pet" ∧ l.ShowsClasses d {} := by
  obtain ⟨d, l, m, hd, hl, hm, hshown⟩ := exists_of_ofFirstMethod shown_petFriends
  have hmake : (outcome (Building.ofPointer petFriends (.str "#/components/schemas/pet") []) {}).1 =
      .ok "Pet" := toOption_eq_some.1 (by decide +kernel)
  have hcapital : Php.startsCapital "Pet" = true := by decide
  obtain ⟨hnames, hshows⟩ := standsForItself_and_showsClasses petFriends d {}
  exact ⟨d, l, m, _, hd, hl, hm, hshown, yields_outcome hmake,
    (hnames _ _ _ _ _ (yields_outcome hmake)).2 hcapital, hshows l hl⟩

/-- A pet with a name that has no capital form. -/
def stray : Document := .ofValue <| .map 0 [
  (.str "openapi", .str "3.0.0"),
  (.str "info", .map 1 [(.str "title", .str "Pets"), (.str "version", .str "1")]),
  (.str "paths", .map 2 [(.str "/pets", .map 3 [(.str "post", .map 4 [
    (.str "operationId", .str "addPet"),
    (.str "tags", .seq [.str "Manager:Pets"]),
    (.str "requestBody", .map 5 [(.str "content", .map 6 [(.str "application/json", .map 7 [
      (.str "schema", .map 8 [(.str "type", .str "object"), (.str "properties", .map 9 [
        (.str "pet", Schema.referenceTo (.str "#/components/schemas/_pet")),
        (.str "friends", .map 10 [(.str "type", .str "array"),
          (.str "items", Schema.referenceTo (.str "#/components/schemas/_pet"))])])])])])]),
    (.str "responses", .map 11 [
      (.str "201", .map 12 [(.str "description", .str "Created"),
        (.str "content", .map 13 [(.str "application/json", .map 14 [
          (.str "schema", Schema.referenceTo (.str "#/components/schemas/_pet"))])])])])])])]),
  (.str "components", .map 15 [(.str "schemas", .map 16 [
    (.str "_pet", .map 17 [(.str "type", .str "object"), (.str "properties", .map 18 [
      (.str "name", .map 19 [(.str "type", .str "string")])])])])])]

theorem shown_stray : ofFirstMethod stray shown = some (.manager, "Pets", some "_pet",
    [(some "$pet = null", some "mixed|null"),
      (some "?array $friends = null", some "mixed[]|null")]) := by
  decide +kernel

/-- The class `_pet` is shown nowhere but where it is built. -/
theorem not_standsForItself_stray : ∃ d l m b',
    Description.ofDocument stray "3.0.0" = .ok d ∧ (ofDescription d {}).1 = .ok l ∧
    HasMethod l .manager "Pets" m ∧
    Yields (Building.ofPointer stray (.str "#/components/schemas/_pet") []) {} "_pet" b' ∧
    ¬ Php.StandsForItself "_pet" ∧ m.returnType = some "_pet" ∧
    (∃ q ∈ m.bodyParameters, Php.parameterDeclaration q.2 = .ok "$pet = null" ∧
      Php.parameterDocType q.2 = .ok "mixed|null") ∧
    ∃ q ∈ m.bodyParameters, Php.parameterDocType q.2 = .ok "mixed[]|null" := by
  obtain ⟨d, l, m, hd, hl, hm, hshown⟩ := exists_of_ofFirstMethod shown_stray
  have hmake : (outcome (Building.ofPointer stray (.str "#/components/schemas/_pet") []) {}).1 =
      .ok "_pet" := toOption_eq_some.1 (by decide +kernel)
  obtain ⟨hreturns, hbody⟩ := Prod.mk.inj hshown
  obtain ⟨q, rest, hparameters, hq, hrest⟩ := List.map_eq_cons_iff.1 hbody
  obtain ⟨q', rest', rfl, hq', -⟩ := List.map_eq_cons_iff.1 hrest
  obtain ⟨hdeclared, hdocumented⟩ := Prod.mk.inj hq
  refine ⟨d, l, m, _, hd, hl, hm, yields_outcome hmake, fun hself => ?_, hreturns,
    ⟨q, by simp [hparameters], toOption_eq_some.1 hdeclared, toOption_eq_some.1 hdocumented⟩,
    q', by simp [hparameters], toOption_eq_some.1 (Prod.mk.inj hq').2⟩
  exact absurd (hself.hint .null) (by decide)

end Library

end OpenApiClient
