import OpenApiClient.Php.Classes
import OpenApiClient.Proofs.Finality
import OpenApiClient.Proofs.Signature

/-!
# What a resource provides to its methods

On the class of a resource, a parameter of the path or the query may be bound to the resource
itself: to its identifier, or to a property, or to the identifier of the entity that a property
holds.  The binding is decided by the registry as it stands before the body is looked at.  Since
entities only grow, the members that a binding reads are declared in the finished library.
-/

namespace OpenApiClient

open Walk

/-- A name from which a word can be taken is that word with `Id` behind it, and perhaps a line end
behind that. -/
theorem Name.eq_of_idWord? {name word : String} (h : idWord? name = some word) :
    name = word ++ "Id" ∨ name = word ++ "Id\n" := by
  have htext (cs : List Char) (hcs : name.toList = word.toList ++ cs) :
      name = word ++ String.ofList cs := by
    rw [← String.toList_inj, String.toList_append, hcs, String.toList_ofList]
  have hword (cs : List Char) (h : (if !(cs.take (cs.length - 2)).isEmpty &&
      cs.drop (cs.length - 2) = ['I', 'd'] && (cs.take (cs.length - 2)).all isNameChar then
      some (String.ofList (cs.take (cs.length - 2))) else none) = some word) :
      cs = word.toList ++ ['I', 'd'] := by
    split at h
    · next hid =>
        obtain ⟨⟨-, hid⟩, -⟩ : (_ ∧ cs.drop (cs.length - 2) = ['I', 'd']) ∧ _ := by simpa using hid
        obtain rfl := Option.some.inj h
        rw [String.toList_ofList, ← hid, List.take_append_drop]
    · cases h
  unfold idWord? at h
  dsimp only at h
  split at h
  · next hlast =>
      right
      refine htext ['I', 'd', '\n'] ?_
      rw [← List.dropLast_append_getLast? '\n' hlast, hword _ h, List.append_assoc]
      rfl
  · exact .inl (htext ['I', 'd'] (hword _ h))

/-- A property stands for a parameter if its name has the key of the name of the parameter, or of
the word in it. -/
def Property.StandsFor (p : Property) (name : String) : Prop :=
  Name.key p.name = Name.key name ∨
    ∃ word, (name = word ++ "Id" ∨ name = word ++ "Id\n") ∧ Name.key p.name = Name.key word

/-- What a source reads is there, given the properties of each class: the identifier of the class
itself, or a property of it that stands for the name, with the identifier of what it holds. -/
def Source.IsProvided (classes : String → Option (List Property)) (className name : String) :
    Source → Prop
  | .argument => True
  | .ownId => ∃ ps, classes className = some ps ∧ ∃ p ∈ ps, p.name = "id"
  | .property bound part => ∃ ps, classes className = some ps ∧
      ∃ p ∈ ps, p.name = bound ∧ p.StandsFor name ∧ ∀ inner, part = some inner →
        inner = "id" ∧ ∃ qs, classes p.type = some qs ∧ ∃ q ∈ qs, q.name = "id"

/-- The properties of each entity of a registry. -/
def Registry.properties? (r : Registry) (name : String) : Option (List Property) :=
  (r.get? name).map (·.properties)

theorem Registry.Grows.properties? {r r' : Registry} (h : r.Grows r') {name : String}
    {ps : List Property} (hps : r.properties? name = some ps) :
    ∃ ps', r'.properties? name = some ps' ∧ ps ⊆ ps' := by
  obtain ⟨e, he, rfl⟩ := Option.map_eq_some_iff.1 hps
  obtain ⟨e', he', hgrows⟩ := h.get? he
  exact ⟨e'.properties, by rw [Registry.properties?, he', Option.map_some],
    hgrows.properties.subset⟩

namespace Source

variable {r r' : Registry} {className name : String}

theorem exists_id_of_hasProperty {e : Entity} (h : e.hasProperty "id" = true) :
    ∃ p ∈ e.properties, p.name = "id" := by
  simpa [Entity.hasProperty, Entity.property?] using h

/-- What is provided stays provided. -/
theorem IsProvided.mono {source : Source} (hg : r.Grows r')
    (h : source.IsProvided r.properties? className name) :
    source.IsProvided r'.properties? className name := by
  cases source with
  | argument => trivial
  | ownId =>
      obtain ⟨ps, hps, p, hp, hid⟩ := h
      obtain ⟨ps', hps', hsub⟩ := hg.properties? hps
      exact ⟨ps', hps', p, hsub hp, hid⟩
  | property bound part =>
      obtain ⟨ps, hps, p, hp, hname, hstands, hpart⟩ := h
      obtain ⟨ps', hps', hsub⟩ := hg.properties? hps
      refine ⟨ps', hps', p, hsub hp, hname, hstands, fun inner heq => ?_⟩
      obtain ⟨hinner, qs, hqs, q, hq, hid⟩ := hpart inner heq
      obtain ⟨qs', hqs', hsub'⟩ := hg.properties? hqs
      exact ⟨hinner, qs', hqs', q, hsub' hq, hid⟩

theorem isProvided_ofWord? {e : Entity} (he : r.get? className = some e) {word : String}
    (hname : Name.idWord? name = some word) {source : Source}
    (h : ofWord? r e className word = some source) :
    source.IsProvided r.properties? className name := by
  have hclass : r.properties? className = some e.properties := by
    rw [Registry.properties?, he, Option.map_some]
  unfold ofWord? at h
  split at h
  · next p hp =>
      obtain rfl := Option.some.inj h
      have hkey : Name.key p.name = Name.key word := by simpa using List.find?_some hp
      refine ⟨e.properties, hclass, p, List.mem_of_find?_eq_some hp, rfl,
        .inr ⟨word, Name.eq_of_idWord? hname, hkey⟩, fun inner heq => ?_⟩
      split at heq
      · next hid =>
          obtain rfl := Option.some.inj heq
          obtain ⟨target, htarget, hid⟩ := (Option.any_eq_true _ _).1 hid
          exact ⟨rfl, target.properties, by rw [Registry.properties?, htarget, Option.map_some],
            exists_id_of_hasProperty hid⟩
      · cases heq
  · split at h
    · next hid =>
        obtain rfl := Option.some.inj h
        exact ⟨e.properties, hclass, exists_id_of_hasProperty (Bool.and_eq_true_iff.1 hid).2⟩
    · cases h

/-- The resource of a binding provides what the binding reads. -/
theorem isProvided_bind {owner : Option Entity}
    (howner : ∀ e, owner = some e → r.get? className = some e) :
    (bind r className owner name).IsProvided r.properties? className name := by
  cases owner with
  | none => exact True.intro
  | some e =>
      have he := howner e rfl
      unfold bind
      dsimp only
      split
      · next source hword =>
          obtain ⟨word, hname, hsource⟩ := Option.bind_eq_some_iff.1 hword
          exact isProvided_ofWord? he hname hsource
      · split
        · next p hp =>
            have hkey : Name.key p.name = Name.key name := by simpa using List.find?_some hp
            exact ⟨e.properties, by rw [Registry.properties?, he, Option.map_some], p,
              List.mem_of_find?_eq_some hp, rfl, .inl hkey, nofun⟩
        · exact True.intro

end Source

namespace ResourceClass

/-- The class declares a member variable. -/
def DeclaresMember (c : ResourceClass) (client : ClientClass) (member : String) : Prop :=
  "    protected $" ++ member ++ ";" ∈ Php.resourceStateLines client c

/-- The class declares a method without parameters. -/
def DeclaresGetter (c : ResourceClass) (getter : String) : Prop :=
  "    public function " ++ getter ++ "()" ∈ Php.resourceAccessLines c.properties

variable {c : ResourceClass} {p : Property}

theorem declaresMember_of_mem (client : ClientClass) (hp : p ∈ c.properties) :
    c.DeclaresMember client (Name.variableName p.name) := by
  unfold DeclaresMember Php.resourceStateLines
  dsimp only
  simp only [List.append_assoc]
  refine List.mem_append_left _ (List.mem_flatMap.2 ⟨p, hp, List.mem_cons_of_mem _ ?_⟩)
  simp [Php.memberLines]

theorem declaresGetter_of_mem (hp : p ∈ c.properties) :
    c.DeclaresGetter (Php.getterOf p.name) := by
  unfold DeclaresGetter Php.resourceAccessLines
  simp only [List.append_assoc]
  refine List.mem_append_left _ (List.mem_flatMap.2 ⟨p, hp, ?_⟩)
  simp

end ResourceClass

namespace Library

/-- The properties of each resource of a library. -/
def properties? (l : Library) (name : String) : Option (List Property) :=
  (l.resource? name).map (·.properties)

/-- The value of a parameter is a variable of the method, or it is read from members that are
declared: a property of the class itself, or the getter of what that property holds. -/
inductive ReadsDeclared (l : Library) (className : String) (p : Parameter) : Prop
  | variable (h : Php.parameterValue p = "$" ++ p.variableName)
  | member {c : ResourceClass} {member : String} (hc : l.resource? className = some c)
      (hmember : c.DeclaresMember l.client member) (h : Php.parameterValue p = "$this->" ++ member)
  | getter {c c' : ResourceClass} {q : Property} {getter : String}
      (hc : l.resource? className = some c) (hq : q ∈ c.properties)
      (hmember : c.DeclaresMember l.client (Name.variableName q.name))
      (hc' : l.resource? q.type = some c') (hgetter : c'.DeclaresGetter getter)
      (h : Php.parameterValue p =
        "$this->" ++ Name.variableName q.name ++ "->" ++ getter ++ "()")

/-- What is provided is read from declared members. -/
theorem readsDeclared_of_isProvided {l : Library} {className : String} {p : Parameter}
    (h : p.source.IsProvided l.properties? className p.name) : l.ReadsDeclared className p := by
  have hvalue : Php.parameterValue p = Php.valueOf p.variableName p.source := rfl
  cases hsource : p.source with
  | argument => exact .variable (by rw [hvalue, hsource]; rfl)
  | ownId =>
      rw [hsource] at h hvalue
      obtain ⟨ps, hps, q, hq, hid⟩ := h
      obtain ⟨c, hc, rfl⟩ := Option.map_eq_some_iff.1 hps
      have hmember := c.declaresMember_of_mem l.client hq
      rw [hid, show Name.variableName "id" = "id" by decide +kernel] at hmember
      exact .member hc hmember hvalue
  | property bound part =>
      rw [hsource] at h hvalue
      obtain ⟨ps, hps, q, hq, rfl, -, hpart⟩ := h
      obtain ⟨c, hc, rfl⟩ := Option.map_eq_some_iff.1 hps
      have hmember := c.declaresMember_of_mem l.client hq
      unfold Php.valueOf at hvalue
      dsimp only at hvalue
      split at hvalue
      · exact .variable hvalue
      · split at hvalue
        · exact .member hc hmember hvalue
        · next inner hinner =>
            obtain ⟨rfl, qs, hqs, q', hq', hid⟩ :=
              hpart inner (Option.filter_eq_some_iff.1 hinner).1
            obtain ⟨c', hc', rfl⟩ := Option.map_eq_some_iff.1 hqs
            have hgetter := c'.declaresGetter_of_mem hq'
            rw [hid] at hgetter
            exact .getter hc hq hmember hc' hgetter hvalue

variable {d : Description} {s : Settings} {l : Library} {final : Assembly}

theorem MadeOf.properties? (h : MadeOf l d s final) :
    l.properties? = final.2.registry.properties? := by
  funext name
  refine Eq.trans ?_ (h.map_get? name)
  unfold Library.properties? resource? registry Registry.get?
  rw [List.find?_map, Option.map_map]
  rfl

theorem isProvided_of_makes {doc : Document} {e : Entry} {x x' : Assembly} {m : Route}
    (h : Makes doc e x m x') {q : String × Parameter}
    (hq : q ∈ m.pathParameters ++ m.queryParameters) :
    q.2.source.IsProvided x.2.registry.properties? e.className q.2.name := by
  rw [← rebind_of_makes h hq]
  refine Source.isProvided_bind fun owner howner => ?_
  unfold Parameter.owner? at howner
  split at howner
  · cases howner
  · exact howner

/-- The parameters of a method on a class are bound to what is there: on a manager and in a body to
the caller, and on a resource to what the resource provides in the finished library. -/
structure Binds (l : Library) (kind : ClassKind) (className : String) (m : Route) : Prop where
  manager : kind = .manager → ∀ p ∈ m.parameters, p.source = .argument
  body : ∀ q ∈ m.bodyParameters, q.2.source = .argument
  given : ∀ p ∈ m.methodParameters, p.source = .argument
  provided : ∀ p ∈ m.parameters, p.source.IsProvided l.properties? className p.name
  declared : ∀ p ∈ m.parameters, l.ReadsDeclared className p

/-- What the parameters of a method are bound to is there when the library is finished, so
everything that is read for a parameter is declared. -/
theorem binds_of_ofDescription (h : (ofDescription d s).1 = .ok l) {kind : ClassKind}
    {className : String} {m : Route} (hm : HasMethod l kind className m) :
    l.Binds kind className m := by
  obtain ⟨final, hmade⟩ := exists_madeOf h
  obtain ⟨e, x, x', rfl, rfl, hamong⟩ := hmade.method hm
  obtain ⟨done, rest, -, -, hmakes, hrest⟩ := hamong
  have hsource {p : Parameter} (hp : p.isArgument = true) : p.source = .argument :=
    of_decide_eq_true hp
  have hbody : ∀ q ∈ m.bodyParameters, q.2.source = .argument := by
    intro q hq
    obtain ⟨x₁, b, -, -, -, -, hbody, -⟩ := exists_of_makes hmakes
    exact hsource (Parameter.isArgument_of_yields_inBody hbody hq)
  have hprovided : ∀ p ∈ m.parameters, p.source.IsProvided l.properties? e.className p.name := by
    intro p hp
    obtain ⟨q, hq, rfl⟩ := List.mem_map.1 hp
    rcases List.mem_append.1 hq with hq | hq
    · rw [hmade.properties?]
      refine (isProvided_of_makes hmakes hq).mono ?_
      exact (trans_of Build.Grows (grows_of_makes hmakes) hrest.grows).registry
    · rw [hbody q hq]
      exact True.intro
  constructor
  case manager =>
    intro hkind p hp
    obtain ⟨q, hq, rfl⟩ := List.mem_map.1 hp
    rcases List.mem_append.1 hq with hq | hq
    · rw [← rebind_of_makes hmakes hq, hkind]
      exact hsource (Parameter.isArgument_rebind_manager q.2)
    · exact hbody q hq
  case body => exact hbody
  case given =>
    intro p hp
    rw [methodParameters_of_makes hmakes] at hp
    exact hsource (List.mem_filter.1 (Parameter.mem_of_mem_requiredFirst_distinct hp)).2
  case provided => exact hprovided
  case declared => exact fun p hp => readsDeclared_of_isProvided (hprovided p hp)

/-- A pet knows its own identifier and its owner.  The name of the last parameter ends with a line
end. -/
def petKeepers : Document := .ofValue <| .map 0 [
  (.str "openapi", .str "3.0.0"),
  (.str "info", .map 1 [(.str "title", .str "Pets"), (.str "version", .str "1")]),
  (.str "paths", .map 2 [(.str "/pets/{petId}", .map 3 [(.str "get", .map 4 [
    (.str "operationId", .str "getPet"),
    (.str "tags", .seq [.str "Resource:Pet"]),
    (.str "parameters", .seq [
      .map 5 [(.str "name", .str "petId"), (.str "in", .str "path"),
        (.str "required", .bool true), (.str "schema", .map 6 [(.str "type", .str "string")])],
      .map 7 [(.str "name", .str "ownerId"), (.str "in", .str "query"),
        (.str "schema", .map 8 [(.str "type", .str "string")])],
      .map 9 [(.str "name", .str "ownerId\n"), (.str "in", .str "query"),
        (.str "schema", .map 10 [(.str "type", .str "string")])]]),
    (.str "responses", .map 11 [(.str "200", .map 12 [(.str "description", .str "A pet"),
      (.str "content", .map 13 [(.str "application/json", .map 14 [
        (.str "schema", Schema.referenceTo (.str "#/components/schemas/Pet"))])])])])])])]),
  (.str "components", .map 15 [(.str "schemas", .map 16 [
    (.str "Pet", .map 17 [(.str "type", .str "object"), (.str "properties", .map 18 [
      (.str "id", .map 19 [(.str "type", .str "string")]),
      (.str "owner", Schema.referenceTo (.str "#/components/schemas/Owner"))])]),
    (.str "Owner", .map 20 [(.str "type", .str "object"), (.str "properties", .map 21 [
      (.str "id", .map 22 [(.str "type", .str "string")])])])])])]

theorem sources_petKeepers :
    ofFirstMethod petKeepers (fun _ m => m.parameters.map fun p => (p.name, p.source)) =
      some (.resource, "Pet", [("petId", .ownId), ("ownerId", .property "owner" (some "id")),
        ("ownerId\n", .property "owner" (some "id"))]) := by
  decide +kernel

/-- The parameter whose name ends with a line end is bound to the owner, although the key of `owner`
is neither that of its name nor that of a word with `Id` behind it. -/
theorem not_standsFor_petKeepers : ∃ d l m, Description.ofDocument petKeepers "3.0.0" = .ok d ∧
    (ofDescription d {}).1 = .ok l ∧ HasMethod l .resource "Pet" m ∧
    ∃ p ∈ m.parameters, p.source = .property "owner" (some "id") ∧
      Name.key "owner" ≠ Name.key p.name ∧ ∀ word, p.name ≠ word ++ "Id" := by
  obtain ⟨d, l, m, hd, hl, hm, hsources⟩ := exists_of_ofFirstMethod sources_petKeepers
  have hmem : ("ownerId\n", Source.property "owner" (some "id")) ∈
      m.parameters.map fun p => (p.name, p.source) := by
    rw [hsources]
    simp
  obtain ⟨p, hp, heq⟩ := List.mem_map.1 hmem
  obtain ⟨hname, hsource⟩ := Prod.mk.inj heq
  refine ⟨d, l, m, hd, hl, hm, p, hp, hsource, ?_, fun word hword => ?_⟩
  · rw [hname]
    decide +kernel
  · have hlast := congrArg (·.toList.getLast?) (hname.symm.trans hword)
    simp at hlast

/-- The identifier of the pet and its owner are there for the method of the pet. -/
theorem binds_petKeepers : ∃ d l m, (ofDescription d {}).1 = .ok l ∧
    HasMethod l .resource "Pet" m ∧ l.Binds .resource "Pet" m ∧
    m.parameters.map (fun p => (p.name, p.source)) = [("petId", .ownId),
      ("ownerId", .property "owner" (some "id")),
      ("ownerId\n", .property "owner" (some "id"))] := by
  obtain ⟨d, l, m, -, hl, hm, hsources⟩ := exists_of_ofFirstMethod sources_petKeepers
  exact ⟨d, l, m, hl, hm, binds_of_ofDescription hl hm, hsources⟩

end Library

end OpenApiClient
