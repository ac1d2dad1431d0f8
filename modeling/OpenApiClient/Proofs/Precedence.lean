import OpenApiClient.Proofs.Declaration
import OpenApiClient.Proofs.Typing
import Mathlib.Logic.Relation
import Mathlib.Order.WellFounded

/-!
# Which part of a composition supplies a property

Several parts of a schema may declare one name.  `Schema.Supplies` says whose declaration counts:
that of the first member that offers the name at all, and the schema's own if no member does.
This is a rule about compositions without circles; in a circle a schema would come before
itself.  A composition is free of circles exactly if its closure stops nowhere, and then the
rule tells the properties that the closure makes.
-/

namespace OpenApiClient

open Walk

theorem Property.nodup_firstOfEach (ps : List Property) :
    ((firstOfEach ps).map (·.name)).Nodup :=
  nodup_firstsBy Property.name ps

/-- The first property of a name is the one that is kept. -/
theorem Property.mem_firstOfEach {ps : List Property} {p : Property} :
    p ∈ firstOfEach ps ↔ ps.find? (·.name == p.name) = some p :=
  mem_firstsBy

namespace Schema

variable {doc : Document} {node : Value}

/-- The shape of a schema is one that a property is made of: it refers to a schema, or names a
type. -/
def IsSupported (schema : Value) : Prop :=
  (∃ pointer, schema.reference? = some pointer) ∨
    ∃ type, typeName? (schema.get "type") = some type

/-- A key spells a name: it is the name, or bytes that write it. -/
def Spells (key : Scalar) (name : String) : Prop := Fields.reading (.scalar key) = .ok name

/-- A part of a schema declares the name with a supported shape. -/
def Offers (doc : Document) (node : Value) (name : String) : Prop :=
  ∃ key schema required, Spells key name ∧ Declares doc node key schema required ∧
    IsSupported schema

/-- The node at the end of a schema has the node at the end of another one for a member. -/
inductive Member (doc : Document) : Value → Value → Prop
  | intro {whole m part : Value} {ms : List Value} (hw : whole.isMap = true)
      (hms : members whole = .ok ms) (hmem : m ∈ ms) (hs : doc.settle m = .ok part)
      (hp : part.isMap = true) : Member doc whole part

/-- No part of a schema is a part of itself again. -/
def IsAcyclic (doc : Document) (node : Value) : Prop :=
  ∀ target, doc.settle node = .ok target →
    ∀ part, Relation.ReflTransGen (Member doc) target part →
      ¬ Relation.TransGen (Member doc) part part

/-- The property that a schema has by a name: that of the first member that offers the name, or
else the first one that it declares itself. -/
inductive Supplies (doc : Document) : Value → String → Property → Prop
  | member {node target m : Value} {before after : List Value} {name : String} {p : Property}
      (hs : doc.settle node = .ok target) (hm : target.isMap = true)
      (hms : members target = .ok (before ++ m :: after))
      (hbefore : ∀ m' ∈ before, ¬ Offers doc m' name) (hfirst : Supplies doc m name p) :
      Supplies doc node name p
  | own {node target schema : Value} {ms : List Value} {before after : List Contribution}
      {name : String} {key : Scalar} {required : Bool} {p : Property}
      (hs : doc.settle node = .ok target) (hm : target.isMap = true)
      (hms : members target = .ok ms) (hnone : ∀ m ∈ ms, ¬ Offers doc m name)
      (hown : ownProperties target = before ++ .property key schema required :: after)
      (hkey : Spells key name)
      (hbefore : ∀ key' schema' required', Spells key' name →
        .property key' schema' required' ∈ before → ¬ IsSupported schema')
      (hp : (Contribution.property key schema required).property? doc = some p) :
      Supplies doc node name p

/-- The first property of a name among contributions. -/
def first? (doc : Document) (cs : List Contribution) (name : String) : Option Property :=
  (cs.filterMap (·.property? doc)).find? (·.name == name)

/-- Every declaration of a supported shape makes a property. -/
def AllMade (doc : Document) (cs : List Contribution) : Prop :=
  ∀ key schema required, .property key schema required ∈ cs → IsSupported schema →
    ∃ p, (Contribution.property key schema required).property? doc = some p

section First

variable {cs : List Contribution} {name : String} {p : Property}

theorem first?_append (cs ds : List Contribution) (name : String) :
    first? doc (cs ++ ds) name = (first? doc cs name).or (first? doc ds name) := by
  unfold first?
  rw [List.filterMap_append, List.find?_append]

theorem first?_flatMap (ms : List Value) (rest : Value → List Contribution) (name : String) :
    first? doc (ms.flatMap rest) name = ms.findSome? fun m => first? doc (rest m) name := by
  unfold first?
  rw [List.filterMap_flatMap, List.find?_flatMap]

theorem first?_eq_none_iff : first? doc cs name = none ↔
    ∀ c ∈ cs, ∀ p, c.property? doc = some p → p.name ≠ name := by
  unfold first?
  rw [List.find?_eq_none]
  simp only [List.mem_filterMap, beq_iff_eq, forall_exists_index, and_imp]
  exact ⟨fun h c hc p hp => h p c hc hp, fun h p c hc hp => h c hc p hp⟩

theorem first?_eq_some_iff : first? doc cs name = some p ↔
    ∃ before, ∃ c : Contribution, ∃ after, cs = before ++ c :: after ∧
      c.property? doc = some p ∧ p.name = name ∧ first? doc before name = none := by
  constructor
  · intro h
    unfold first? at h
    rw [List.find?_filterMap] at h
    obtain ⟨c, hc, hp⟩ := Option.bind_eq_some_iff.1 h
    obtain ⟨hany, before, after, rfl, hbefore⟩ := List.find?_eq_some_iff_append.1 hc
    refine ⟨before, c, after, rfl, hp, by simpa [hp] using hany, ?_⟩
    refine first?_eq_none_iff.2 fun c' hc' q hq hname => ?_
    simpa [hq, hname] using hbefore c' hc'
  · rintro ⟨before, c, after, rfl, hp, rfl, hnone⟩
    rw [first?_append, hnone, Option.none_or]
    simp [first?, hp]

end First

theorem Typing.exists_ofValues {t : Typing} {key : Scalar} {required : Bool} {p : Property}
    (h : t.property? doc key required = some p) :
    t ≠ .unsupported ∧ ∃ type format description items,
      Property.ofValues required (.scalar key) type format description items = .ok p := by
  cases t with
  | unsupported => cases h
  | plain type format description items =>
      exact ⟨nofun, type, format, description, items, toOption_eq_some.1 h⟩
  | entity pointer description =>
      obtain ⟨⟨target, node⟩, -, h⟩ := Option.bind_eq_some_iff.1 h
      exact ⟨nofun, _, _, _, _, toOption_eq_some.1 h⟩
  | entities pointer description =>
      obtain ⟨⟨target, node⟩, -, h⟩ := Option.bind_eq_some_iff.1 h
      exact ⟨nofun, _, _, _, _, toOption_eq_some.1 h⟩

/-- What makes a property is a declaration of its name, of a supported shape. -/
theorem Contribution.exists_of_property? {c : Contribution} {p : Property}
    (h : c.property? doc = some p) :
    ∃ key schema required, c = .property key schema required ∧ Spells key p.name ∧
      IsSupported schema := by
  cases c with
  | failure f => cases h
  | cycle q => cases h
  | property key schema required =>
      obtain ⟨t, ht, hp⟩ := Option.bind_eq_some_iff.1 h
      obtain ⟨hne, type, format, description, items, hvalues⟩ := Typing.exists_ofValues hp
      replace ht := ofSchema_of_typing? ht
      refine ⟨key, schema, required, rfl, (Property.holds_of_ofValues hvalues).1, ?_⟩
      unfold Typing.ofSchema at ht
      split at ht
      · next pointer hr => exact .inl ⟨pointer, hr⟩
      · split at ht
        · exact absurd (Except.ok.inj ht).symm hne
        · next type htype => exact .inr ⟨type, htype⟩

/-- A property has the name that its key spells. -/
theorem name_of_property? {key : Scalar} {schema : Value} {required : Bool} {p : Property}
    {name : String} (h : (Contribution.property key schema required).property? doc = some p)
    (hkey : Spells key name) : p.name = name := by
  obtain ⟨_, _, _, heq, hkey', -⟩ := Contribution.exists_of_property? h
  cases heq
  exact Except.ok.inj (hkey'.symm.trans hkey)

/-- What stands at the end of a schema decides what the schema declares. -/
theorem declares_iff_of_settle {target schema : Value} {ms : List Value} {key : Scalar}
    {required : Bool} (hs : doc.settle node = .ok target) (hm : target.isMap = true)
    (hms : members target = .ok ms) :
    Declares doc node key schema required ↔
      (∃ m ∈ ms, Declares doc m key schema required) ∨
        .property key schema required ∈ ownProperties target := by
  constructor
  · rintro ⟨ps, part, hpart, hown⟩
    cases hpart with
    | own hs' hm' =>
        obtain rfl := Except.ok.inj (hs.symm.trans hs')
        exact .inr hown
    | member hs' hm' hms' hmem hrest =>
        obtain rfl := Except.ok.inj (hs.symm.trans hs')
        obtain rfl := Except.ok.inj (hms.symm.trans hms')
        exact .inl ⟨_, hmem, _, part, hrest, hown⟩
  · rintro (⟨m, hmem, hdeclares⟩ | hown)
    · exact declares_of_settle hs hm (.inr ⟨ms, m, hms, hmem, hdeclares⟩)
    · exact declares_of_settle hs hm (.inl hown)

theorem not_declares_of_settle {target schema : Value} {key : Scalar} {required : Bool}
    (hs : doc.settle node = .ok target) (hm : target.isMap = false) :
    ¬ Declares doc node key schema required := by
  rintro ⟨ps, part, hpart, -⟩
  cases hpart with
  | own hs' hm' =>
      obtain rfl := Except.ok.inj (hs.symm.trans hs')
      cases hm.symm.trans hm'
  | member hs' hm' =>
      obtain rfl := Except.ok.inj (hs.symm.trans hs')
      cases hm.symm.trans hm'

section Lists

variable {chain : List String} {cs : List Contribution}

/-- A list that stops nowhere holds all declarations. -/
theorem Lists.mem_iff (h : Lists doc chain node cs) (hno : ∀ p, .cycle p ∉ cs) {key : Scalar}
    {schema : Value} {required : Bool} :
    .property key schema required ∈ cs ↔ Declares doc node key schema required := by
  induction h with
  | cycle hr hp => exact absurd List.mem_cons_self (hno _)
  | other hnew hs hm => simp [not_declares_of_settle hs hm]
  | @parts chain node target ms rest hnew hs hm hms hrest ih =>
      rw [declares_iff_of_settle hs hm hms, List.mem_append, List.mem_flatMap]
      refine or_congr_left (exists_congr fun m => and_congr_right fun hmem => ?_)
      refine ih m hmem fun p hp => ?_
      exact hno p (List.mem_append_left _ (List.mem_flatMap.2 ⟨m, hmem, hp⟩))

/-- Nothing is found exactly if no declaration of the name has a supported shape. -/
theorem AllMade.first?_eq_none_iff (h : AllMade doc cs) (name : String) :
    first? doc cs name = none ↔
      ∀ key schema required, Spells key name → .property key schema required ∈ cs →
        ¬ IsSupported schema := by
  rw [Schema.first?_eq_none_iff]
  constructor
  · intro hnone key schema required hkey hmem hsupported
    obtain ⟨p, hp⟩ := h _ _ _ hmem hsupported
    exact hnone _ hmem p hp (name_of_property? hp hkey)
  · rintro hnone c hc p hp rfl
    obtain ⟨key, schema, required, rfl, hkey, hsupported⟩ := Contribution.exists_of_property? hp
    exact hnone key schema required hkey hc hsupported

/-- What is found is made from the first declaration of the name that has a supported shape. -/
theorem AllMade.first?_eq_some_iff (h : AllMade doc cs) (name : String) (p : Property) :
    first? doc cs name = some p ↔ ∃ before key schema required after,
      cs = before ++ Contribution.property key schema required :: after ∧ Spells key name ∧
      (∀ key' schema' required', Spells key' name →
        Contribution.property key' schema' required' ∈ before →
        ¬ IsSupported schema') ∧
      (Contribution.property key schema required).property? doc = some p := by
  have hbefore {before after : List Contribution} (heq : cs = before ++ after) :
      AllMade doc before := fun key schema required hmem =>
    h key schema required (heq ▸ List.mem_append_left after hmem)
  rw [Schema.first?_eq_some_iff]
  constructor
  · rintro ⟨before, c, after, heq, hp, rfl, hnone⟩
    obtain ⟨key, schema, required, rfl, hkey, -⟩ := Contribution.exists_of_property? hp
    exact ⟨before, key, schema, required, after, heq, hkey,
      ((hbefore heq).first?_eq_none_iff _).1 hnone, hp⟩
  · rintro ⟨before, key, schema, required, after, heq, hkey, hnone, hp⟩
    exact ⟨before, _, after, heq, hp, name_of_property? hp hkey,
      ((hbefore heq).first?_eq_none_iff _).2 hnone⟩

/-- A list that stops nowhere has a property of every name that is offered, and of no other. -/
theorem Lists.first?_eq_none_iff (h : Lists doc chain node cs) (hno : ∀ p, .cycle p ∉ cs)
    (hmade : AllMade doc cs) (name : String) :
    first? doc cs name = none ↔ ¬ Offers doc node name := by
  rw [hmade.first?_eq_none_iff]
  constructor
  · rintro hnone ⟨key, schema, required, hkey, hdeclares, hsupported⟩
    exact hnone _ _ _ hkey ((h.mem_iff hno).2 hdeclares) hsupported
  · exact fun hoffers key schema required hkey hmem hsupported =>
      hoffers ⟨key, schema, required, hkey, (h.mem_iff hno).1 hmem, hsupported⟩

/-- A list that stops nowhere has the properties that the schema supplies. -/
theorem Lists.first?_eq_some_iff (h : Lists doc chain node cs) (hno : ∀ p, .cycle p ∉ cs)
    (hmade : AllMade doc cs) (name : String) (p : Property) :
    first? doc cs name = some p ↔ Supplies doc node name p := by
  induction h generalizing p with
  | cycle hr hp => exact absurd List.mem_cons_self (hno _)
  | other hnew hs hm =>
      refine ⟨nofun, fun h => ?_⟩
      cases h with
      | member hs' hm' =>
          obtain rfl := Except.ok.inj (hs.symm.trans hs')
          cases hm.symm.trans hm'
      | own hs' hm' =>
          obtain rfl := Except.ok.inj (hs.symm.trans hs')
          cases hm.symm.trans hm'
  | @parts chain node target ms rest hnew hs hm hms hrest ih =>
      have hno' : ∀ m ∈ ms, ∀ p, .cycle p ∉ rest m := fun m hmem p hp =>
        hno p (List.mem_append_left _ (List.mem_flatMap.2 ⟨m, hmem, hp⟩))
      have hmade' : ∀ m ∈ ms, AllMade doc (rest m) := fun m hmem key schema required hc =>
        hmade key schema required (List.mem_append_left _ (List.mem_flatMap.2 ⟨m, hmem, hc⟩))
      have hown : AllMade doc (ownProperties target) := fun key schema required hc =>
        hmade key schema required (List.mem_append_right _ hc)
      have hnone : ∀ m ∈ ms, first? doc (rest m) name = none ↔ ¬ Offers doc m name :=
        fun m hmem => (hrest m hmem).first?_eq_none_iff (hno' m hmem) (hmade' m hmem) name
      rw [first?_append, first?_flatMap, Option.or_eq_some_iff, hown.first?_eq_some_iff]
      constructor
      · rintro (hmember | ⟨hmembers, before, key, schema, required, after, heq, hkey, hbefore, hp⟩)
        · obtain ⟨before, m, after, rfl, hfirst, hbefore⟩ := List.findSome?_eq_some_iff.1 hmember
          have hmem : m ∈ before ++ m :: after := by simp
          refine .member hs hm hms (fun m' hm' => ?_)
            ((ih m hmem (hno' m hmem) (hmade' m hmem) p).1 hfirst)
          exact (hnone m' (List.mem_append_left _ hm')).1 (hbefore m' hm')
        · rw [List.findSome?_eq_none_iff] at hmembers
          exact .own hs hm hms (fun m hmem => (hnone m hmem).1 (hmembers m hmem)) heq hkey hbefore
            hp
      · intro h
        cases h with
        | @member _ _ m before after _ _ hs' hm' hms' hbefore hfirst =>
            obtain rfl := Except.ok.inj (hs.symm.trans hs')
            obtain rfl := Except.ok.inj (hms.symm.trans hms')
            have hmem : m ∈ before ++ m :: after := by simp
            refine .inl (List.findSome?_eq_some_iff.2 ⟨before, m, after, rfl, ?_, ?_⟩)
            · exact (ih m hmem (hno' m hmem) (hmade' m hmem) p).2 hfirst
            · exact fun m' hm' => (hnone m' (List.mem_append_left _ hm')).2 (hbefore m' hm')
        | own hs' hm' hms' hmembers heq hkey hbefore hp =>
            obtain rfl := Except.ok.inj (hs.symm.trans hs')
            obtain rfl := Except.ok.inj (hms.symm.trans hms')
            have hnotOffered : ms.findSome? (fun m => first? doc (rest m) name) = none :=
              List.findSome?_eq_none_iff.2 fun m hmem => (hnone m hmem).2 (hmembers m hmem)
            exact .inr ⟨hnotOffered, _, _, _, _, _, heq, hkey, hbefore, hp⟩

theorem Lists.exists_settle (h : Lists doc [] node cs) :
    ∃ target, doc.settle node = .ok target := by
  cases h with
  | cycle hr hchain => cases hchain
  | other hnew hs hm => exact ⟨_, hs⟩
  | parts hnew hs hm hms hrest => exact ⟨_, hs⟩

/-- Below a schema whose list stops nowhere the members come to an end. -/
theorem Lists.acc (h : Lists doc chain node cs) (hno : ∀ p, .cycle p ∉ cs) {target : Value}
    (hs : doc.settle node = .ok target) : Acc (fun part whole => Member doc whole part) target := by
  induction h generalizing target with
  | cycle hr hp => exact absurd List.mem_cons_self (hno _)
  | other hnew hs' hm =>
      obtain rfl := Except.ok.inj (hs'.symm.trans hs)
      refine .intro _ fun part hpart => ?_
      cases hpart with
      | intro hw => cases hm.symm.trans hw
  | @parts chain node _ ms rest hnew hs' hm hms hrest ih =>
      obtain rfl := Except.ok.inj (hs'.symm.trans hs)
      refine .intro _ fun part hpart => ?_
      obtain ⟨-, hms', hmem, hsm, -⟩ := hpart
      obtain rfl := Except.ok.inj (hms.symm.trans hms')
      refine ih _ hmem (fun p hp => hno p ?_) hsm
      exact List.mem_append_left _ (List.mem_flatMap.2 ⟨_, hmem, hp⟩)

theorem not_transGen_of_acc {part : Value}
    (h : Acc (fun part whole => Member doc whole part) part) :
    ¬ Relation.TransGen (Member doc) part part := by
  induction h with
  | intro part _ ih =>
      intro hcircle
      obtain ⟨next, hnext, hback⟩ := Relation.TransGen.head'_iff.1 hcircle
      exact ih next hnext (Relation.TransGen.tail'_iff.2 ⟨part, hback, hnext⟩)

theorem cycle_notMem_ownProperties {target : Value} {p : String} :
    .cycle p ∉ ownProperties target := by
  unfold ownProperties
  intro h
  split at h
  · simp at h
  · obtain ⟨⟨key, schema⟩, -, heq⟩ := List.mem_map.1 h
    dsimp only at heq
    split at heq <;> cases heq

/-- The pointers of a chain lead to schemas that the node at its end is a part of. -/
def Descends (doc : Document) (root : Value) (chain : List String) (node : Value) : Prop :=
  (∀ target, doc.settle node = .ok target → target.isMap = true →
    Relation.ReflTransGen (Member doc) root target) ∧
  ∀ p ∈ chain, ∃ above, above.isMap = true ∧ Relation.ReflTransGen (Member doc) root above ∧
    (∀ reference, reference.reference? = some (.str p) → doc.settle reference = .ok above) ∧
    ∀ target, doc.settle node = .ok target → target.isMap = true →
      Relation.TransGen (Member doc) above target

theorem Descends.enter {root target m : Value} {ms : List Value}
    (h : Descends doc root chain node) (hs : doc.settle node = .ok target)
    (hm : target.isMap = true) (hms : members target = .ok ms) (hmem : m ∈ ms) :
    Descends doc root (chain ++ followed node) m := by
  have hroot := h.1 target hs hm
  have hstep : ∀ part, doc.settle m = .ok part → part.isMap = true → Member doc target part :=
    fun part hpart hmap => .intro hm hms hmem hpart hmap
  refine ⟨fun part hpart hmap => hroot.tail (hstep part hpart hmap), fun p hp => ?_⟩
  rcases List.mem_append.1 hp with hp | hp
  · obtain ⟨above, habove, hreach, hfollow, hbelow⟩ := h.2 p hp
    refine ⟨above, habove, hreach, hfollow, fun part hpart hmap => ?_⟩
    exact (hbelow target hs hm).tail (hstep part hpart hmap)
  · refine ⟨target, hm, hroot, fun reference hr => ?_, fun part hpart hmap => ?_⟩
    · rw [doc.settle_congr hr (mem_followed.1 hp), hs]
    · exact .single (hstep part hpart hmap)

/-- Below a schema that has no circle no list stops. -/
theorem Lists.cycle_notMem {root : Value} (h : Lists doc chain node cs)
    (hdescends : Descends doc root chain node)
    (hacyclic : ∀ part, Relation.ReflTransGen (Member doc) root part →
      ¬ Relation.TransGen (Member doc) part part) (p : String) : .cycle p ∉ cs := by
  induction h with
  | cycle hr hp =>
      obtain ⟨above, habove, hreach, hfollow, hbelow⟩ := hdescends.2 _ hp
      exact absurd (hbelow above (hfollow _ hr) habove) (hacyclic above hreach)
  | other => exact List.not_mem_nil
  | @parts chain node target ms rest hnew hs hm hms hrest ih =>
      intro hmem
      rcases List.mem_append.1 hmem with hmem | hown
      · obtain ⟨m, hm', hmem⟩ := List.mem_flatMap.1 hmem
        exact ih m hm' (hdescends.enter hs hm hms hm') hmem
      · exact cycle_notMem_ownProperties hown

end Lists

/-- A composition goes nowhere round in circles exactly if its closure stops nowhere. -/
theorem isAcyclic_iff (hno : ∀ f, .failure f ∉ closure doc node) :
    IsAcyclic doc node ↔ ∀ p, .cycle p ∉ closure doc node := by
  have hlists := lists_closure hno
  constructor
  · intro hacyclic p
    obtain ⟨target, hs⟩ := hlists.exists_settle
    have hdescends : Descends doc target [] node := by
      refine ⟨fun part hpart _ => ?_, nofun⟩
      obtain rfl := Except.ok.inj (hs.symm.trans hpart)
      exact .refl
    exact hlists.cycle_notMem hdescends (hacyclic target hs) p
  · intro hcycle target hs part hpart
    have hacc : Acc (fun part whole => Member doc whole part) part := by
      induction hpart with
      | refl => exact hlists.acc hcycle hs
      | tail _ hstep ih => exact ih.inv hstep
    exact not_transGen_of_acc hacc

end Schema

end OpenApiClient
