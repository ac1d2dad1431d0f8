import OpenApiClient.Php.Classes
import OpenApiClient.Proofs.Cutting
import OpenApiClient.Proofs.References

/-!
# What the file of a manager has in scope

The file of a manager calls classes by short names: its own name, that of the interface of
responses, and the last parts of what it imports.  Whatever its methods build, return or accept by
reference is imported, and nothing is imported twice; but nobody sees to it that the last parts
differ.  So the file is in order exactly if the names of the manager, the client, the exception and
the imported resources are different, whatever their case: `isScoped_iff`.
-/

namespace OpenApiClient

open Walk

/-- Names of classes are the same to PHP whatever their case. -/
def Php.SameName (a b : String) : Prop := Text.small a = Text.small b

instance (a b : String) : Decidable (Php.SameName a b) := inferInstanceAs (Decidable (_ = _))

namespace Namespace

/-- Nothing is imported twice. -/
theorem nodup_imports (own : String) (names : List String) : (imports own names).Nodup := by
  induction names using List.reverseRecOn with
  | nil => exact List.nodup_nil
  | append_singleton names last ih =>
      rw [imports, List.foldl_append, List.foldl_cons, List.foldl_nil, ← imports, addImport]
      split
      · exact ih
      · next hnew => simpa using ih.concat (by simpa using fun h => hnew (by simp [h]))

end Namespace

namespace Library

/-- The full names of a manager, a resource, the client and the exception for responses of an
unexpected status. -/
def managerName (s : Settings) (name : String) : String :=
  Namespace.qualify [Namespace.normalize s.baseNamespace, Namespace.managers, name]

def resourceName (s : Settings) (name : String) : String :=
  Namespace.qualify [Namespace.normalize s.baseNamespace, Namespace.resources, name]

def clientName (s : Settings) : String :=
  Namespace.qualify [Namespace.normalize s.baseNamespace, Namespace.clientName s]

def unexpectedName (s : Settings) : String :=
  Namespace.qualify [Namespace.normalize s.baseNamespace, Namespace.exceptions,
    Namespace.unexpectedResponse]

/-- The short name of a resource is its own, unless that is empty or holds a backslash. -/
def shortName (s : Settings) (name : String) : String := Namespace.lastPart (resourceName s name)

theorem shortName_eq (s : Settings) {name : String} (hne : name ≠ "") (h : '\\' ∉ name.toList) :
    shortName s name = name := by
  refine (Namespace.lastPart_qualify [_, _] hne).trans ?_
  rw [Namespace.lastPart, Text.cut_of_notMem h]
  rfl

theorem lastPart_clientName (s : Settings) :
    Namespace.lastPart (clientName s) = Namespace.lastPart (Namespace.clientName s) := by
  refine Namespace.lastPart_qualify [_] ?_
  unfold Namespace.clientName
  split
  · next name hname => simpa using (Option.filter_eq_some_iff.1 hname).2
  · simp

theorem lastPart_unexpectedName (s : Settings) :
    Namespace.lastPart (unexpectedName s) = Namespace.unexpectedResponse :=
  (Namespace.lastPart_qualify [_, _] (by decide)).trans (by decide)

/-- The space of the managers. -/
def managerSpace (s : Settings) : String := spaceOf (Namespace.normalize s.baseNamespace) .manager

theorem mem_usesOf_iff {s : Settings} {entities : List String} {u : String} :
    u ∈ usesOf (Namespace.normalize s.baseNamespace) (Namespace.clientName s) .manager entities ↔
      (u = clientName s ∧ Namespace.ofName u ≠ managerSpace s) ∨
      (∃ e ∈ entities, u = resourceName s e) ∨ u = unexpectedName s := by
  have hplain (other : String) (h : other ≠ "" ∧ '\\' ∉ other.toList)
      (hne : other ≠ Namespace.managers) (name : String) :
      Namespace.ofName (Namespace.qualify [Namespace.normalize s.baseNamespace, other, name]) ≠
        managerSpace s :=
    Namespace.ofName_qualify_ne (by decide) h hne name
  have hresource := hplain Namespace.resources (by decide) (by decide)
  have hexception := hplain Namespace.exceptions (by decide) (by decide)
  unfold usesOf
  rw [Namespace.mem_imports_iff]
  simp only [List.cons_append, List.mem_cons, List.mem_append, List.mem_map, List.not_mem_nil,
    or_false]
  constructor
  · rintro ⟨h | ⟨e, he, h⟩ | h, hother⟩
    · exact .inl ⟨h, hother⟩
    · exact .inr (.inl ⟨e, he, h.symm⟩)
    · exact .inr (.inr h)
  · rintro (⟨h, hother⟩ | ⟨e, he, h⟩ | h)
    · exact ⟨.inl h, hother⟩
    · exact ⟨.inr (.inl ⟨e, he, h.symm⟩), h ▸ hresource e⟩
    · exact ⟨.inr (.inr h), h ▸ hexception _⟩

/-- Primitive types begin with small letters. -/
theorem isPrimitive_of_startsCapital {name : String} (h : Php.startsCapital name = true) :
    Php.isPrimitive name = false := by
  have hsmall : ∀ q ∈ Php.primitives, Php.startsCapital q.1 = false := by decide +kernel
  refine Bool.eq_false_iff.2 fun hprimitive => ?_
  obtain ⟨type, hlookup⟩ := Option.isSome_iff_exists.1 hprimitive
  obtain ⟨before, after, heq, -⟩ := List.lookup_eq_some_iff.1 hlookup
  exact absurd (hsmall (name, type) (heq ▸ by simp)) (by simp [h])

/-- What is registered under a name with a capital is found by it. -/
theorem entityOf?_of_contains {r : Registry} {name : String}
    (hcapital : Php.startsCapital name = true) (h : r.contains name = true) :
    entityOf? r (.str name) = .ok (some name) := by
  have hfilled : (Value.str name).isFilled = true := by
    refine Bool.not_eq_false _ ▸ fun hempty => ?_
    rw [show name = "" by simpa [Value.isFilled] using hempty] at hcapital
    cases hcapital
  unfold entityOf?
  rw [hfilled]
  simp [Value.isKey, isPrimitive_of_startsCapital hcapital, h]

/-- What a method builds, and the classes that it accepts, are what it uses. -/
theorem mem_typesOf {r : Registry} {m : Route} {types : List String}
    (h : typesOf r m = .ok types) :
    (∀ e ∈ m.expressions, ∀ type ∈ e.targets, type ∈ types) ∧
      ∀ q ∈ m.bodyParameters, ∀ name, q.2.type = .str name ∨ q.2.items = .str name →
        Php.startsCapital name = true → r.contains name = true → name ∈ types := by
  obtain ⟨accepted, haccepted, hpure⟩ := bind_eq_ok.1 h
  obtain rfl := Except.ok.inj hpure
  constructor
  · intro e he type htype
    refine List.mem_append_left _ (List.mem_flatMap.2 ⟨some e, ?_, Expression.mem_firstMet.2 htype⟩)
    simpa [eq_comm] using Route.mem_expressions.1 he
  · intro q hq name hnamed hcapital hreg
    obtain ⟨ts, hts, hlooked⟩ := exists_mem_of_mapM_eq_ok haccepted hq
    obtain ⟨t₁, h₁, hlooked⟩ := bind_eq_ok.1 hlooked
    obtain ⟨t₂, h₂, hlooked⟩ := bind_eq_ok.1 hlooked
    obtain rfl := Except.ok.inj hlooked
    have hfound := entityOf?_of_contains hcapital hreg
    refine List.mem_append_right _
      (List.mem_flatten.2 ⟨_, hts, List.mem_filterMap.2 ⟨some name, ?_, rfl⟩⟩)
    rcases hnamed with htype | hitems
    · rw [htype, hfound] at h₁
      simp [← Except.ok.inj h₁]
    · rw [hitems, hfound] at h₂
      simp [← Except.ok.inj h₂]

/-- The short names in the scope of the file of a manager, each with the class that it stands
for. -/
def scope (s : Settings) (c : GeneratedClass) : List (String × String) :=
  (c.name, managerName s c.name) ::
    (Php.responseInterface :: c.uses).map fun u => (Namespace.lastPart u, u)

/-- The file of a manager imports every resource that its methods build, return or accept, and its
short names differ, whatever their case. -/
structure IsScoped (l : Library) (s : Settings) (c : GeneratedClass) : Prop where
  builds : ∀ m ∈ c.routes, ∀ e ∈ m.expressions, ∀ type ∈ e.targets, resourceName s type ∈ c.uses
  returns : ∀ m ∈ c.routes, ∀ type, m.returnType = some type ∨ m.defaultReturnType = some type →
    type ≠ "" → resourceName s type ∈ c.uses
  accepts : ∀ m ∈ c.routes, ∀ q ∈ m.bodyParameters, ∀ name,
    q.2.type = .str name ∨ q.2.items = .str name → Php.startsCapital name = true →
    l.HasResource name → resourceName s name ∈ c.uses
  distinct : ((scope s c).map fun x => Text.small x.1).Nodup

/-- What a manager imports, with its short name: the client, unless it stands among the managers,
some resources, and the exception. -/
inductive Imports (l : Library) (s : Settings) (c : GeneratedClass) : String → String → Prop
  | client (h : Namespace.ofName (clientName s) ≠ managerSpace s) :
      Imports l s c (Namespace.lastPart (Namespace.clientName s)) (clientName s)
  | resource {name : String} (hr : l.HasResource name) (h : resourceName s name ∈ c.uses) :
      Imports l s c (shortName s name) (resourceName s name)
  | exception : Imports l s c Namespace.unexpectedResponse (unexpectedName s)

/-- The names of the manager, of the interface of responses and of what is imported differ. -/
structure NamesApart (l : Library) (s : Settings) (c : GeneratedClass) : Prop where
  own : ¬ Php.SameName c.name "ResponseInterface"
  imported {short full : String} : Imports l s c short full →
    ¬ Php.SameName short c.name ∧ ¬ Php.SameName short "ResponseInterface"
  each {short short' full full' : String} : Imports l s c short full →
    Imports l s c short' full' → Php.SameName short short' → full = full'

/-- A parameter has a type or items from the text of its schema, which does not refer to an entity
there. -/
def SpellsOut (doc : Document) (m : Route) (p : Parameter) (name : String) : Prop :=
  ∃ schema, m.operation.fieldSchema? doc p.name = some schema ∧
    (p.type = .str name ∧ (∀ pointer, schema.reference? = some pointer →
        Schema.scalarTarget? doc pointer ≠ .ok none) ∨
      p.items = .str name ∧ (schema.reference? = none →
        (Schema.declaredType schema).same (.str "array") = true →
        ∀ pointer, (schema.get "items").reference? = some pointer →
          Schema.scalarTarget? doc pointer ≠ .ok none))

/-- The resources that bodies spell out are imported, even if they were not there yet when the
operations had been placed on their classes. -/
def ImportsSpelledOut (l : Library) (d : Description) (s : Settings) (c : GeneratedClass) : Prop :=
  ∀ m ∈ c.routes, ∀ q ∈ m.bodyParameters, ∀ name, SpellsOut d.document m q.2 name →
    Php.startsCapital name = true → l.HasResource name →
    (classified d s).build.registry.contains name = false → resourceName s name ∈ c.uses

variable {d : Description} {s : Settings} {l : Library} {c : GeneratedClass}
  {operations : List Operation} {ps : List PlacedOperation}
  {tagged : List (Bucket × List Route × List String)} {x final : Assembly}

/-- The methods of a manager are made one after the other, and it uses the entities that each of
them builds or accepts. -/
theorem HasParts.exists_entities (h : HasParts l d s (classified d s) tagged x final)
    (hc : c ∈ l.managers) : ∃ entities,
      c.uses = usesOf (Namespace.normalize s.baseNamespace) (Namespace.clientName s) .manager
        entities ∧
      ∀ m ∈ c.routes, ∃ e y y' types, Makes d.document e y m y' ∧
        (classified d s).build.Grows y.2 ∧ y'.2.Grows final.2 ∧
        typesOf y'.2.registry m = .ok types ∧ types ⊆ entities := by
  obtain ⟨done, b, rest, gs, gs', y, y', -, hdone, ⟨types, hroutes, -, huses⟩, hrest⟩ :=
    h.managers.exists_step hc
  refine ⟨b.uses ++ types, huses, fun m hm => ?_⟩
  obtain ⟨made, hmade, rfl, hsteps⟩ := exists_of_produces_routes hroutes
  rw [hmade] at hm
  obtain ⟨t, ht, rfl⟩ := List.mem_map.1 hm
  obtain ⟨done', e, rest', bs, bs', z, z', -, hdone', ⟨hmakes, htypes⟩, hrest'⟩ :=
    hsteps.exists_step ht
  have hentries {es : List Entry} {z z' : Assembly} {ts : List (Route × List String)}
      (h : Along (fun e x t x' => Makes d.document e x t.1 x' ∧
        typesOf x'.2.registry t.1 = .ok t.2) es z ts z') : z.2.Grows z'.2 := by
    have hsteps : Steps d.document es z z' := by
      refine ⟨ts.map (·.1), ?_⟩
      rw [← List.map_id es]
      exact h.map fun _ _ _ _ hstep => hstep.1
    exact hsteps.grows
  have hmanagers {bs : List Bucket} {z z' : Assembly} {gs : List GeneratedClass}
      (h : Along (MakesManager d s) bs z gs z') : z.2.Grows z'.2 := by
    have hsteps : Steps d.document (bs.flatMap entriesOf) z z' :=
      ⟨_, h.flatMap fun _ _ _ _ hstep => hstep.along⟩
    exact hsteps.grows
  refine ⟨e, z, z', t.2, hmakes, ?_, ?_, htypes, ?_⟩
  · exact trans_of Build.Grows (hmanagers hdone) (hentries hdone')
  · exact trans_of Build.Grows (hentries hrest')
      (trans_of Build.Grows (hmanagers hrest) h.steps_methods.grows)
  · intro type htype
    refine List.mem_append_right _ (Expression.mem_firstMet.2 (List.mem_flatMap.2 ⟨t, ht, htype⟩))

theorem mem_targets_ofResponse (r : Registry) (type : String) (isArray : Bool) :
    type ∈ (Expression.ofResponse r type isArray).targets := by
  have htype (binding : Binding) (path : List String) :
      type ∈ (Expression.ofType r [] type binding path).targets := by
    rw [Expression.ofType_eq List.not_mem_nil]
    exact List.mem_cons_self
  unfold Expression.ofResponse Expression.synthesize
  cases isArray with
  | true => exact htype _ _
  | false => exact htype _ _

/-- What a method returns is built by one of its expressions. -/
theorem exists_expression_of_returnType {m : Route} {r : Registry} (h : m.IsBuiltBy r)
    {type : String} (ht : m.returnType = some type ∨ m.defaultReturnType = some type)
    (hne : type ≠ "") : ∃ e ∈ m.expressions, type ∈ e.targets := by
  obtain ⟨response, hmem, htype⟩ := Route.exists_response_iff.2 ht
  have hnamed : response.namedType? = some type := by
    rw [Response.namedType?, htype, Option.filter_some]
    simp [hne]
  refine ⟨_, List.mem_filterMap.2 ⟨response, hmem, ?_⟩, mem_targets_ofResponse r type
    response.isArray⟩
  rw [h response hmem, hnamed]
  rfl

theorem Imports.eq_lastPart {short full : String} (h : Imports l s c short full) :
    short = Namespace.lastPart full := by
  cases h with
  | client => exact (lastPart_clientName s).symm
  | resource => rfl
  | exception => exact (lastPart_unexpectedName s).symm

/-- What a manager imports is the client, resources and the exception. -/
theorem HasParts.mem_uses_iff (h : HasParts l d s (classified d s) tagged x final)
    (hr : (classified d s).Reflects d.document operations ps) (hc : c ∈ l.managers) {u : String} :
    u ∈ c.uses ↔ ∃ short, Imports l s c short u := by
  obtain ⟨entities, huses, -⟩ := h.exists_entities hc
  constructor
  · intro hu
    have hother : Namespace.ofName u ≠ managerSpace s :=
      (Namespace.mem_imports_iff.1 (huses ▸ hu)).2
    rcases h.exists_of_mem_uses hr hc hu with hclient | hexception | ⟨type, htype, hresource⟩
    · rw [hclient] at hother ⊢
      exact ⟨_, .client hother⟩
    · rw [hexception]
      exact ⟨_, .exception⟩
    · rw [hresource] at hu ⊢
      exact ⟨_, .resource htype hu⟩
  · rintro ⟨short, himports⟩
    cases himports with
    | client hother => exact huses ▸ mem_usesOf_iff.2 (.inl ⟨rfl, hother⟩)
    | resource _ hu => exact hu
    | exception => exact huses ▸ mem_usesOf_iff.2 (.inr (.inr rfl))

/-- The short names differ exactly if the names that they come from do. -/
theorem nodup_scope_iff (hnodup : c.uses.Nodup)
    (huses : ∀ u, u ∈ c.uses ↔ ∃ short, Imports l s c short u) :
    ((scope s c).map fun x => Text.small x.1).Nodup ↔ NamesApart l s c := by
  have hinterface : Namespace.lastPart Php.responseInterface = "ResponseInterface" := by
    decide +kernel
  have hscope : ((scope s c).map fun x => Text.small x.1) = Text.small c.name ::
      Text.small "ResponseInterface" :: c.uses.map fun u => Text.small (Namespace.lastPart u) := by
    simp [scope, hinterface]
  rw [hscope, List.nodup_cons, List.nodup_cons, List.nodup_map_iff_inj_on hnodup]
  simp only [List.mem_cons, List.mem_map, not_or, not_exists, not_and]
  constructor
  · rintro ⟨⟨hown, hself⟩, hfixed, heach⟩
    constructor
    case own => exact hown
    case imported =>
      intro short full h
      have hfull := (huses full).2 ⟨short, h⟩
      rw [h.eq_lastPart]
      exact ⟨hself full hfull, hfixed full hfull⟩
    case each =>
      intro short short' full full' h h' hsame
      rw [h.eq_lastPart, h'.eq_lastPart] at hsame
      exact heach full ((huses full).2 ⟨short, h⟩) full' ((huses full').2 ⟨short', h'⟩) hsame
  · intro h
    refine ⟨⟨h.own, fun u hu => ?_⟩, fun u hu => ?_, fun u hu v hv hsame => ?_⟩
    · obtain ⟨short, himports⟩ := (huses u).1 hu
      exact himports.eq_lastPart ▸ (h.imported himports).1
    · obtain ⟨short, himports⟩ := (huses u).1 hu
      exact himports.eq_lastPart ▸ (h.imported himports).2
    · obtain ⟨short, himports⟩ := (huses u).1 hu
      obtain ⟨short', himports'⟩ := (huses v).1 hv
      refine h.each himports himports' ?_
      rw [himports.eq_lastPart, himports'.eq_lastPart]
      exact hsame

/-- What a short name denotes: the classes in scope whose short name is the same. -/
def denoted (s : Settings) (c : GeneratedClass) (short : String) : List String :=
  ((scope s c).filter fun x => Text.small x.1 = Text.small short).map (·.2)

/-- In a list without duplicate keys, a key leads to what it stands for. -/
theorem denoted_of_mem_scope (h : ((scope s c).map fun x => Text.small x.1).Nodup)
    {short full : String} (hx : (short, full) ∈ scope s c) : denoted s c short = [full] := by
  have hkey : ∀ x ∈ scope s c, Text.small x.1 = Text.small short → x = (short, full) :=
    fun x hx' hsame => List.inj_on_of_nodup_map h hx' hx hsame
  have hfilter : (scope s c).filter (fun x => Text.small x.1 = Text.small short) =
      (scope s c).filter (· == (short, full)) := by
    refine List.filter_congr fun x hx' => ?_
    rw [Bool.eq_iff_iff, decide_eq_true_eq, beq_iff_eq]
    constructor
    · exact hkey x hx'
    · rintro rfl
      rfl
  rw [denoted, hfilter, List.filter_beq, h.of_map.count, if_pos hx]
  rfl

/-- Whether the short names of a manager differ can be read off the names that they come from. -/
theorem nodup_scope_iff_of_ofDescription (h : (ofDescription d s).1 = .ok l) (hc : c ∈ l.managers) :
    ((scope s c).map fun x => Text.small x.1).Nodup ↔ NamesApart l s c := by
  obtain ⟨hclassified, tagged, x, final, hparts⟩ := exists_hasParts h
  obtain ⟨ps, hreflects, -⟩ := Classification.exists_reflects hclassified
  obtain ⟨entities, huses, -⟩ := hparts.exists_entities hc
  refine nodup_scope_iff ?_ fun u => hparts.mem_uses_iff hreflects hc
  rw [huses]
  exact Namespace.nodup_imports _ _

/-- A file imports whatever its methods build, return or accept, except for resources that bodies
spell out and that were not there yet when the operations had been placed; and its short names
differ exactly if the names differ that they come from.  If it is in order, then each of its short
names denotes the class that it stands for, and nothing else. -/
theorem isScoped_iff (h : (ofDescription d s).1 = .ok l) (hc : c ∈ l.managers) :
    (IsScoped l s c ↔ NamesApart l s c ∧ ImportsSpelledOut l d s c) ∧
      (IsScoped l s c → ∀ x ∈ scope s c, denoted s c x.1 = [x.2]) := by
  have hscope := nodup_scope_iff_of_ofDescription h hc
  obtain ⟨hclassified, tagged, x, final, hparts⟩ := exists_hasParts h
  obtain ⟨ps, hreflects, -⟩ := Classification.exists_reflects hclassified
  obtain ⟨entities, huses, hmethods⟩ := hparts.exists_entities hc
  have himports {e : String} (he : e ∈ entities) : resourceName s e ∈ c.uses :=
    huses ▸ mem_usesOf_iff.2 (.inr (.inl ⟨e, he, rfl⟩))
  have hbuilds : ∀ m ∈ c.routes, ∀ e ∈ m.expressions, ∀ type ∈ e.targets,
      resourceName s type ∈ c.uses := by
    intro m hm e he type htype
    obtain ⟨_, _, _, types, -, -, -, htypes, hsub⟩ := hmethods m hm
    exact himports (hsub ((mem_typesOf htypes).1 e he type htype))
  refine ⟨⟨fun hscoped => ⟨hscope.1 hscoped.distinct, ?_⟩, fun ⟨hapart, hspelled⟩ => ?_⟩,
    fun hscoped x hx => denoted_of_mem_scope hscoped.distinct hx⟩
  · rintro m hm q hq name ⟨schema, -, hnamed⟩ hcapital hres -
    exact hscoped.accepts m hm q hq name (hnamed.imp And.left And.left) hcapital hres
  · constructor
    case builds => exact hbuilds
    case returns =>
      intro m hm type htype hne
      obtain ⟨e, y, y', -, -, hamong⟩ := hparts.madeOf.method (.manager hc hm)
      obtain ⟨b, hbuilt, -⟩ := hamong.exists_isBuiltBy hreflects
      obtain ⟨found, he, htarget⟩ := exists_expression_of_returnType hbuilt htype hne
      exact hbuilds m hm found he type htarget
    case accepts =>
      intro m hm q hq name hnamed hcapital hres
      obtain ⟨e, y, y', types, hmakes, hstart, hfinal, htypes, hsub⟩ := hmethods m hm
      have haccepts (hreg : y'.2.registry.contains name = true) : resourceName s name ∈ c.uses :=
        himports (hsub ((mem_typesOf htypes).2 q hq name hnamed hcapital hreg))
      obtain ⟨y₁, b₁, -, -, -, -, hbody, hmethod, hoperation⟩ := exists_of_makes hmakes
      obtain ⟨field, schema, b₂, b₃, hschema, hfield, hg₃⟩ :=
        Parameter.exists_of_yields_inBody hbody hq
      -- What the schema of a field refers to has been made before its method is done.
      have hmade {pointer : Value} {b : Build}
          (hmake : Yields (Building.ofPointer d.document pointer []) b name b₃) :
          resourceName s name ∈ c.uses := by
        have hgrows : b₃.Grows y'.2 :=
          trans_of Build.Grows hg₃ ((keeps_ofMethod _ _ _ _).of_yields hmethod)
        exact haccepts (hgrows.registry.contains (Building.contains_of_yields_ofPointer hmake))
      have hspells (hspells : SpellsOut d.document m q.2 name) : resourceName s name ∈ c.uses := by
        cases hreg : (classified d s).build.registry.contains name with
        | true =>
            exact haccepts
              ((trans_of Build.Grows hstart (grows_of_makes hmakes)).registry.contains hreg)
        | false => exact hspelled m hm q hq name hspells hcapital hres hreg
      rw [← hoperation, ← hfield.name] at hschema
      rcases hnamed with htype | hitems
      · by_cases hrefers : ∃ pointer, schema.reference? = some pointer ∧
            Schema.scalarTarget? d.document pointer = .ok none
        · obtain ⟨pointer, hr, hs⟩ := hrefers
          obtain ⟨type, htype', hmake⟩ := hfield.type pointer hr hs
          obtain rfl : type = name := by simpa using htype'.symm.trans htype
          exact hmade hmake
        · refine hspells ⟨schema, hschema, .inl ⟨htype, fun pointer hr hs => ?_⟩⟩
          exact hrefers ⟨pointer, hr, hs⟩
      · by_cases hrefers : schema.reference? = none ∧
            (Schema.declaredType schema).same (.str "array") = true ∧
            ∃ pointer, (schema.get "items").reference? = some pointer ∧
              Schema.scalarTarget? d.document pointer = .ok none
        · obtain ⟨hnone, harray, pointer, hr, hs⟩ := hrefers
          obtain ⟨type, hitems', hmake⟩ := hfield.items pointer hnone harray hr hs
          obtain rfl : type = name := by simpa using hitems'.symm.trans hitems
          exact hmade hmake
        · refine hspells ⟨schema, hschema, .inr ⟨hitems, fun hnone harray pointer hr hs => ?_⟩⟩
          exact hrefers ⟨hnone, harray, pointer, hr, hs⟩
    case distinct => exact hscope.2 hapart

/-- An operation on the manager `Pet` and on the resource `PET`. -/
def petCases : Document := .ofValue <| .map 0 [
  (.str "openapi", .str "3.0.0"),
  (.str "info", .map 1 [(.str "title", .str "Pets"), (.str "version", .str "1")]),
  (.str "paths", .map 2 [(.str "/pets", .map 3 [(.str "delete", .map 4 [
    (.str "operationId", .str "deletePets"),
    (.str "tags", .seq [.str "Manager:Pet", .str "Resource:PET"]),
    (.str "responses", .map 5 [(.str "204", .map 6 [(.str "description", .str "Gone")])])])])])]

/-- An operation on the manager `Pets` that accepts an owner and returns a pet. -/
def petVisits : Document := .ofValue <| .map 0 [
  (.str "openapi", .str "3.0.0"),
  (.str "info", .map 1 [(.str "title", .str "Pets"), (.str "version", .str "1")]),
  (.str "paths", .map 2 [(.str "/pets", .map 3 [(.str "post", .map 4 [
    (.str "operationId", .str "createPet"), (.str "tags", .seq [.str "Manager:Pets"]),
    (.str "requestBody", .map 5 [(.str "content", .map 6 [(.str "application/json",
      .map 7 [(.str "schema", .map 8 [(.str "properties", .map 9 [(.str "owner",
        .map 10 [(.str "$ref", .str "#/components/schemas/Owner")])])])])])]),
    (.str "responses", .map 11 [(.str "201", .map 12 [(.str "content", .map 13 [
      (.str "application/json", .map 14 [(.str "schema",
        .map 15 [(.str "$ref", .str "#/components/schemas/Pet")])])])])])])])]),
  (.str "components", .map 16 [(.str "schemas", .map 17 [
    (.str "Owner", .map 18 [(.str "properties", .map 19 [
      (.str "name", .map 20 [(.str "type", .str "string")])])]),
    (.str "Pet", .map 21 [(.str "properties", .map 22 [
      (.str "name", .map 23 [(.str "type", .str "string")])])])])])]

/-- A manager with what it imports, and what each of its methods returns and accepts. -/
structure Outline where
  name : String
  uses : List String
  methods : List (Option String × List (Value × Value))
  deriving DecidableEq

/-- The outlines of the managers. -/
def outlines (l : Library) : List Outline :=
  l.managers.map fun c => ⟨c.name, c.uses,
    c.routes.map fun m => (m.returnType, m.bodyParameters.map fun q => (q.2.type, q.2.items))⟩

theorem outlines_petCases : ofFirstMethod petCases (fun l _ => outlines l) =
    some (.manager, "Pet", [⟨"Pet", ["Api\\ApiClient", "Api\\Resources\\PET",
      "Api\\Exceptions\\UnexpectedResponseException"], [(none, [])]⟩]) := by
  decide +kernel

/-- The file of the manager `Pet` imports the resource `PET`. -/
theorem not_isScoped_petCases : ∃ d l, Description.ofDocument petCases "3.0.0" = .ok d ∧
    (ofDescription d {}).1 = .ok l ∧ ∃ c ∈ l.managers, ¬ IsScoped l {} c := by
  obtain ⟨d, l, m, hd, hl, hm, houtlines⟩ := exists_of_ofFirstMethod outlines_petCases
  obtain ⟨c, hc, houtline⟩ := List.mem_map.1 (houtlines ▸ List.mem_singleton_self _)
  obtain ⟨hname, huses, -⟩ := Outline.mk.inj houtline
  refine ⟨d, l, hd, hl, c, hc, fun hscoped => ?_⟩
  have hdistinct := hscoped.distinct
  rw [scope, hname, huses] at hdistinct
  exact absurd hdistinct (by decide +kernel)

theorem outlines_petVisits : ofFirstMethod petVisits (fun l _ => outlines l) =
    some (.manager, "Pets", [⟨"Pets", ["Api\\ApiClient", "Api\\Resources\\Pet",
      "Api\\Resources\\Owner", "Api\\Exceptions\\UnexpectedResponseException"],
      [(some "Pet", [(.str "Owner", .null)])]⟩]) := by
  decide +kernel

/-- The file of the manager `Pets` is in order: its method accepts an `Owner` and returns a `Pet`,
both of which it imports. -/
theorem isScoped_petVisits : ∃ d l, (ofDescription d {}).1 = .ok l ∧ ∃ c ∈ l.managers,
    (c.routes.map fun m => (m.returnType, m.bodyParameters.map fun q => q.2.type)) =
      [(some "Pet", [.str "Owner"])] ∧
    IsScoped l {} c ∧ ∀ x ∈ scope {} c, denoted {} c x.1 = [x.2] := by
  obtain ⟨d, l, m, -, hl, -, houtlines⟩ := exists_of_ofFirstMethod outlines_petVisits
  obtain ⟨c, hc, houtline⟩ := List.mem_map.1 (houtlines ▸ List.mem_singleton_self _)
  obtain ⟨hname, huses, hmethods⟩ := Outline.mk.inj houtline
  have hapart : NamesApart l {} c := by
    rw [← nodup_scope_iff_of_ofDescription hl hc, scope, hname, huses]
    decide +kernel
  have hspelled : ImportsSpelledOut l d {} c := by
    rintro m hm q hq name ⟨schema, -, hnamed⟩ - - -
    have hmethod := List.mem_singleton.1 (hmethods ▸ List.mem_map_of_mem hm)
    have hfield := List.mem_singleton.1 ((Prod.mk.inj hmethod).2 ▸ List.mem_map_of_mem hq)
    obtain ⟨htype, hitems⟩ := Prod.mk.inj hfield
    rcases hnamed with ⟨hnamed, -⟩ | ⟨hnamed, -⟩
    · obtain rfl : "Owner" = name :=
        Scalar.str.inj (Value.scalar.inj (htype.symm.trans hnamed))
      rw [huses]
      decide +kernel
    · exact absurd (hitems.symm.trans hnamed) (by simp)
  obtain ⟨hiff, hdenotes⟩ := isScoped_iff hl hc
  have hscoped := hiff.2 ⟨hapart, hspelled⟩
  refine ⟨d, l, hl, c, hc, ?_, hscoped, hdenotes hscoped⟩
  simpa [Function.comp_def] using congrArg (List.map fun m => (m.1, m.2.map (·.1))) hmethods

end Library

end OpenApiClient
