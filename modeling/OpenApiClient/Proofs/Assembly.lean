import OpenApiClient.Description.Extraction
import OpenApiClient.Library.Assembly
import OpenApiClient.Proofs.Repetition

/-!
# The making of a library, method by method

A library is made along its agenda: the operations of all managers, class by class, and then
those of all resources.  Every step makes one method, at a state that the steps before it have
left, and every method of the library is made by one of the steps.
-/

namespace OpenApiClient.Library

open Walk

variable {α β : Type}

/-- The state of the making of methods: the responses that have their expressions, and what has
been built. -/
abbrev Assembly := List (Nat × Responses) × Build

/-- The making gives `a` and leads from one state to another. -/
def Produces (m : Assembling α) (x : Assembly) (a : α) (x' : Assembly) : Prop :=
  Yields (m.run x.1) x.2 (a, x'.1) x'.2

theorem produces_pure {a c : α} {x x' : Assembly} :
    Produces (pure a) x c x' ↔ c = a ∧ x' = x := by
  unfold Produces
  rw [StateT.run_pure, yields_pure]
  constructor
  · rintro ⟨h₁, h₂⟩
    obtain ⟨rfl, h⟩ := Prod.mk.inj h₁
    exact ⟨rfl, Prod.ext h h₂⟩
  · rintro ⟨rfl, rfl⟩
    exact ⟨rfl, rfl⟩

theorem produces_bind {m : Assembling α} {f : α → Assembling β} {x x'' : Assembly} {c : β} :
    Produces (m >>= f) x c x'' ↔ ∃ a x', Produces m x a x' ∧ Produces (f a) x' c x'' := by
  unfold Produces
  rw [StateT.run_bind, yields_bind]
  constructor
  · rintro ⟨⟨a, memo⟩, b, h₁, h₂⟩
    exact ⟨a, (memo, b), h₁, h₂⟩
  · rintro ⟨a, ⟨memo, b⟩, h₁, h₂⟩
    exact ⟨(a, memo), b, h₁, h₂⟩

/-- A walk inside the making leaves the responses alone. -/
theorem produces_building {m : Building α} {x x' : Assembly} {a : α} :
    Produces (liftM m : Assembling α) x a x' ↔ Yields m x.2 a x'.2 ∧ x'.1 = x.1 := by
  unfold Produces
  change Yields (m >>= fun a => pure (a, x.1)) x.2 (a, x'.1) x'.2 ↔ _
  rw [yields_bind]
  constructor
  · rintro ⟨a', b, h, hpure⟩
    obtain ⟨heq, hb⟩ := yields_pure.1 hpure
    obtain ⟨rfl, hmemo⟩ := Prod.mk.inj heq
    exact ⟨hb ▸ h, hmemo⟩
  · rintro ⟨h, hmemo⟩
    exact ⟨a, x'.2, h, yields_pure.2 ⟨by rw [hmemo], rfl⟩⟩

theorem produces_except {e : Except Fault α} {x x' : Assembly} {a : α} :
    Produces (liftM e : Assembling α) x a x' ↔ e = .ok a ∧ x' = x := by
  change Produces (liftM (liftM e : Building α) : Assembling α) x a x' ↔ _
  rw [produces_building, yields_lift]
  constructor
  · rintro ⟨⟨he, hb⟩, hmemo⟩
    exact ⟨he, Prod.ext hmemo hb⟩
  · rintro ⟨he, rfl⟩
    exact ⟨⟨he, rfl⟩, rfl⟩

theorem produces_get {x x' : Assembly} {memo : List (Nat × Responses)} :
    Produces get x memo x' ↔ memo = x.1 ∧ x' = x := by
  unfold Produces
  change Yields (pure (x.1, x.1)) x.2 (memo, x'.1) x'.2 ↔ _
  rw [yields_pure]
  constructor
  · rintro ⟨h₁, h₂⟩
    obtain ⟨rfl, h⟩ := Prod.mk.inj h₁
    exact ⟨rfl, Prod.ext h h₂⟩
  · rintro ⟨rfl, rfl⟩
    exact ⟨rfl, rfl⟩

theorem produces_modify {f : List (Nat × Responses) → List (Nat × Responses)} {x x' : Assembly}
    {u : Unit} : Produces (modify f) x u x' ↔ x' = (f x.1, x.2) := by
  unfold Produces
  change Yields (pure ((), f x.1)) x.2 (u, x'.1) x'.2 ↔ _
  rw [yields_pure]
  constructor
  · rintro ⟨h₁, h₂⟩
    exact Prod.ext (Prod.mk.inj h₁).2 h₂
  · rintro rfl
    exact ⟨rfl, rfl⟩

theorem produces_rethrow {m : Assembling α} {g : Fault → Fault} {x x' : Assembly} {a : α} :
    Produces (tryCatch m fun e => throw (g e)) x a x' ↔ Produces m x a x' := by
  unfold Produces
  exact yields_rethrow (m := m.run x.1)

theorem along_of_produces_mapM {f : α → Assembling β} {l : List α} {x x' : Assembly}
    {bs : List β} (h : Produces (l.mapM f) x bs x') :
    Along (fun a => Produces (f a)) l x bs x' := by
  induction l generalizing x bs with
  | nil =>
      rw [List.mapM_nil] at h
      obtain ⟨rfl, rfl⟩ := produces_pure.1 h
      exact .nil x'
  | cons a l ih =>
      rw [List.mapM_cons] at h
      obtain ⟨b, x₁, hb, h₁⟩ := produces_bind.1 h
      obtain ⟨bs₁, x₂, hbs, h₂⟩ := produces_bind.1 h₁
      obtain ⟨rfl, rfl⟩ := produces_pure.1 h₂
      exact .cons hb (ih hbs)

/-- An operation that becomes a method of a class. -/
structure Entry where
  kind : ClassKind
  className : String
  placed : PlacedOperation

def entriesOf (b : Bucket) : List Entry := b.routes.map fun (_, p) => ⟨b.kind, b.name, p⟩

/-- The methods in the order in which they are made. -/
def agenda (c : Classification) : List Entry :=
  (c.ofKind .manager ++ c.ofKind .resource).flatMap entriesOf

def Makes (doc : Document) (e : Entry) (x : Assembly) (m : Route) (x' : Assembly) : Prop :=
  Produces (route doc e.kind e.className e.placed) x m x'

def Steps (doc : Document) (es : List Entry) (x x' : Assembly) : Prop :=
  ∃ ms, Along (Makes doc) es x ms x'

/-- A method is made of an entry, on the way from one state to another. -/
def MadeAmong (doc : Document) (es : List Entry) (start : Assembly) (e : Entry) (x : Assembly)
    (m : Route) (x' final : Assembly) : Prop :=
  ∃ done rest, es = done ++ e :: rest ∧ Steps doc done start x ∧ Makes doc e x m x' ∧
    Steps doc rest x' final

theorem Steps.append {doc : Document} {es es' : List Entry} {x x' x'' : Assembly}
    (h : Steps doc es x x') (h' : Steps doc es' x' x'') : Steps doc (es ++ es') x x'' := by
  obtain ⟨ms, h⟩ := h
  obtain ⟨ms', h'⟩ := h'
  exact ⟨ms ++ ms', h.append h'⟩

theorem Steps.nil {doc : Document} (x : Assembly) : Steps doc [] x x := ⟨[], .nil x⟩

theorem Steps.within {doc : Document} {es before after : List Entry} {e : Entry} {m : Route}
    {x x' start start' final final' : Assembly} (hbefore : Steps doc before start' start)
    (h : MadeAmong doc es start e x m x' final) (hafter : Steps doc after final final') :
    MadeAmong doc (before ++ es ++ after) start' e x m x' final' := by
  obtain ⟨done, rest, rfl, hdone, hm, hrest⟩ := h
  refine ⟨before ++ done, rest ++ after, ?_, hbefore.append hdone, hm, hrest.append hafter⟩
  simp

/-- The methods of a class are made of its entries, and after each of them it is looked up what it
builds or accepts. -/
theorem exists_of_produces_routes {doc : Document} {b : Bucket} {ms : List Route}
    {types : List String} {x x' : Assembly} (h : Produces (routes doc b) x (ms, types) x') :
    ∃ made : List (Route × List String), ms = made.map (·.1) ∧
      types = Expression.firstMet (made.flatMap (·.2)) ∧
      Along (fun e x t x' => Makes doc e x t.1 x' ∧ typesOf x'.2.registry t.1 = .ok t.2)
        (entriesOf b) x made x' := by
  obtain ⟨made, x₁, hmade, hpure⟩ := produces_bind.1 h
  obtain ⟨heq, rfl⟩ := produces_pure.1 hpure
  obtain ⟨rfl, rfl⟩ := Prod.mk.inj heq
  refine ⟨made, rfl, rfl, ?_⟩
  rw [← List.map_id made]
  refine (along_of_produces_mapM hmade).map fun ⟨_, p⟩ y c y' hstep => ?_
  obtain ⟨m, y₁, hm, hrest⟩ := produces_bind.1 hstep
  obtain ⟨r, y₂, hr, hrest⟩ := produces_bind.1 hrest
  obtain ⟨hr, hmemo⟩ := produces_building.1 hr
  obtain ⟨rfl, hbuild⟩ := Building.yields_registry.1 hr
  obtain ⟨types, y₃, htypes, hpure⟩ := produces_bind.1 hrest
  obtain ⟨hlooked, rfl⟩ := produces_except.1 htypes
  obtain ⟨rfl, rfl⟩ := produces_pure.1 hpure
  rw [show y' = y₁ from Prod.ext hmemo hbuild]
  exact ⟨produces_rethrow.1 hm, hlooked⟩

theorem along_routes {doc : Document} {b : Bucket} {ms : List Route} {types : List String}
    {x x' : Assembly} (h : Produces (routes doc b) x (ms, types) x') :
    Along (Makes doc) (entriesOf b) x ms x' := by
  obtain ⟨made, rfl, -, hmade⟩ := exists_of_produces_routes h
  rw [← List.map_id (entriesOf b)]
  exact hmade.map fun _ _ _ _ hstep => hstep.1

/-- Classes are made of the entries of their buckets. -/
theorem madeAmong_of_mem {γ : Type} {doc : Document} (routesOf : γ → List Route)
    {step : Bucket → Assembly → γ → Assembly → Prop}
    (hstep : ∀ b x c x', step b x c x' → Along (Makes doc) (entriesOf b) x (routesOf c) x')
    {bs : List Bucket} {start final : Assembly} {cs : List γ} (h : Along step bs start cs final)
    {c : γ} (hc : c ∈ cs) {m : Route} (hm : m ∈ routesOf c) :
    ∃ b y y', b ∈ bs ∧ step b y c y' ∧ ∃ e x x', e ∈ entriesOf b ∧
      MadeAmong doc (bs.flatMap entriesOf) start e x m x' final := by
  obtain ⟨done, b, rest, cs₁, cs₂, y, y', rfl, hdone, hb, hrest⟩ := h.exists_step hc
  obtain ⟨doneE, e, restE, ms₁, ms₂, x, x', hentries, hdoneE, he, hrestE⟩ :=
    (hstep b y c y' hb).exists_step hm
  refine ⟨b, y, y', by simp, hb, e, x, x', by simp [hentries], ?_⟩
  rw [List.flatMap_append, List.flatMap_cons, ← List.append_assoc]
  exact Steps.within ⟨_, hdone.flatMap hstep⟩
    ⟨doneE, restE, hentries, ⟨ms₁, hdoneE⟩, he, ⟨ms₂, hrestE⟩⟩ ⟨_, hrest.flatMap hstep⟩

/-- The responses of an operation are completed once, with the registry as it stands then. -/
theorem produces_completed {p : PlacedOperation} {rs : Responses} {x x' : Assembly}
    (h : Produces (completed p) x rs x') :
    (x.1.lookup p.position = some rs ∧ x' = x) ∨ (x.1.lookup p.position = none ∧
      rs = p.responses.complete x.2.registry ∧ x' = ((p.position, rs) :: x.1, x.2)) := by
  obtain ⟨memo, x₁, hget, h₁⟩ := produces_bind.1 h
  obtain ⟨rfl, rfl⟩ := produces_get.1 hget
  cases hl : x₁.1.lookup p.position with
  | some rs' =>
      rw [hl] at h₁
      obtain ⟨rfl, rfl⟩ := produces_pure.1 h₁
      exact .inl ⟨rfl, rfl⟩
  | none =>
      rw [hl] at h₁
      obtain ⟨r, x₂, hr, h₂⟩ := produces_bind.1 h₁
      obtain ⟨hr, hmemo⟩ := produces_building.1 hr
      obtain ⟨rfl, hbuild⟩ := Building.yields_registry.1 hr
      obtain rfl : x₂ = x₁ := Prod.ext hmemo hbuild
      obtain ⟨u, x₃, hmodify, hpure⟩ := produces_bind.1 h₂
      obtain rfl := produces_modify.1 hmodify
      obtain ⟨rfl, rfl⟩ := produces_pure.1 hpure
      exact .inr ⟨rfl, rfl, rfl⟩

/-- How the method of an entry is made: its path and query are looked at before its body, and all
three again for the parameters of the method. -/
theorem exists_of_makes {doc : Document} {e : Entry} {x x' : Assembly} {m : Route}
    (h : Makes doc e x m x') : ∃ (x₁ : Assembly) (b : Build),
      Produces (completed e.placed) x m.responses x₁ ∧ x'.1 = x₁.1 ∧
      Parameter.inPath doc x.2.registry e.kind e.className e.placed.operation =
        .ok m.pathParameters ∧
      Parameter.inQuery doc x.2.registry e.kind e.className e.placed.operation =
        .ok m.queryParameters ∧
      Yields (Parameter.inBody doc e.placed.operation) x.2 m.bodyParameters b ∧
      Yields (Parameter.ofMethod doc e.kind e.className e.placed.operation) b
        m.methodParameters x'.2 ∧ m.operation = e.placed.operation := by
  obtain ⟨rs, x₁, hrs, h₁⟩ := produces_bind.1 h
  have hbuild : x₁.2 = x.2 := by
    obtain ⟨-, rfl⟩ | ⟨-, -, rfl⟩ := produces_completed hrs <;> rfl
  obtain ⟨r, x₂, hr, h₂⟩ := produces_bind.1 h₁
  obtain ⟨hr, hmemo₂⟩ := produces_building.1 hr
  obtain ⟨rfl, hbuild₂⟩ := Building.yields_registry.1 hr
  obtain ⟨path, x₃, hp, h₃⟩ := produces_bind.1 h₂
  obtain ⟨hpath, rfl⟩ := produces_except.1 hp
  obtain ⟨query, x₄, hq, h₄⟩ := produces_bind.1 h₃
  obtain ⟨hquery, rfl⟩ := produces_except.1 hq
  obtain ⟨body, x₅, hbody, h₅⟩ := produces_bind.1 h₄
  obtain ⟨hbody, hmemo₅⟩ := produces_building.1 hbody
  obtain ⟨ps, x₆, hmethod, h₆⟩ := produces_bind.1 h₅
  obtain ⟨hmethod, hmemo₆⟩ := produces_building.1 hmethod
  obtain ⟨type, x₇, htype, h₇⟩ := produces_bind.1 h₆
  obtain ⟨htype, rfl⟩ := produces_except.1 htype
  obtain ⟨hfill, rfl⟩ := produces_except.1 h₇
  obtain ⟨-, rfl⟩ := (Fields.fill_eq_ok_iff _ _ _ _).1 hfill
  rw [hbuild] at hpath hquery hbuild₂
  rw [hbuild₂] at hbody
  exact ⟨x₁, x₅.2, hrs, by rw [hmemo₆, hmemo₅, hmemo₂], hpath, hquery, hbody, hmethod, rfl⟩

theorem operation_of_makes {doc : Document} {e : Entry} {x x' : Assembly} {m : Route}
    (h : Makes doc e x m x') : m.operation = e.placed.operation := by
  obtain ⟨-, -, -, -, -, -, -, -, hoperation⟩ := exists_of_makes h
  exact hoperation

/-- Whether the responses have just been completed or not, they are found from now on. -/
theorem lookup_of_makes {doc : Document} {e : Entry} {x x' : Assembly} {m : Route}
    (h : Makes doc e x m x') (position : Nat) : x'.1.lookup position =
      if position = e.placed.position then some m.responses else x.1.lookup position := by
  obtain ⟨x₁, b, hcompleted, hmemo, -⟩ := exists_of_makes h
  rw [hmemo]
  obtain ⟨hfound, rfl⟩ | ⟨-, -, rfl⟩ := produces_completed hcompleted
  · split
    · next heq => rw [heq, hfound]
    · rfl
  · rw [List.lookup_cons]
    by_cases heq : position = e.placed.position
    · simp [heq]
    · rw [beq_false_of_ne heq, if_neg heq]

/-- Responses that have been found are found again. -/
theorem lookup_mono_of_makes {doc : Document} {e : Entry} {x x' : Assembly} {m : Route}
    (h : Makes doc e x m x') {position : Nat} {rs : Responses}
    (hfound : x.1.lookup position = some rs) : x'.1.lookup position = some rs := by
  rw [lookup_of_makes h]
  split
  · next heq =>
      obtain ⟨x₁, b, hcompleted, -⟩ := exists_of_makes h
      obtain ⟨hfound', -⟩ | ⟨hmissing, -⟩ := produces_completed hcompleted
      · rw [← hfound', ← heq, hfound]
      · rw [← heq, hfound] at hmissing
        cases hmissing
  · exact hfound

theorem keeps_ofMethod {R : Build → Build → Prop} [Build.Spans R] (doc : Document)
    (kind : ClassKind) (className : String) (o : Operation) :
    Keeps R (Parameter.ofMethod doc kind className o) :=
  compositional_keeps.ofMethod (fun p => Building.keeps_ofPointer doc p [])
    Building.keeps_registry kind className o

section Spans

variable {R : Build → Build → Prop} [Build.Spans R] {doc : Document}

theorem spans_of_makes {e : Entry} {x x' : Assembly} {m : Route} (h : Makes doc e x m x') :
    R x.2 x'.2 := by
  obtain ⟨x₁, b, -, -, -, -, hbody, hmethod, -⟩ := exists_of_makes h
  exact trans_of R ((Building.keeps_inBody _).of_yields hbody)
    ((keeps_ofMethod doc _ _ _).of_yields hmethod)

theorem Steps.spans {es : List Entry} {x x' : Assembly} (h : Steps doc es x x') : R x.2 x'.2 := by
  obtain ⟨ms, h⟩ := h
  induction h with
  | nil x => exact refl_of R x.2
  | cons h hrest ih => exact trans_of R (spans_of_makes h) ih

end Spans

/-- The making of a method only adds to what has been built. -/
theorem grows_of_makes {doc : Document} {e : Entry} {x x' : Assembly} {m : Route}
    (h : Makes doc e x m x') : x.2.Grows x'.2 :=
  spans_of_makes h

theorem Steps.grows {doc : Document} {es : List Entry} {x x' : Assembly}
    (h : Steps doc es x x') : x.2.Grows x'.2 :=
  h.spans

inductive HasMethod (l : Library) : ClassKind → String → Route → Prop
  | manager {c : GeneratedClass} {m : Route} (hc : c ∈ l.managers) (hm : m ∈ c.routes) :
      HasMethod l .manager c.name m
  | resource {c : ResourceClass} {m : Route} (hc : c ∈ l.resources) (hm : m ∈ c.routes) :
      HasMethod l .resource c.name m

/-- The classes that the operations of a description are placed on. -/
def classified (d : Description) (s : Settings) : Classification :=
  (Classification.ofOperations d.document s.strictOperationIds d.operations).2

def start (d : Description) (s : Settings) : Assembly := ([], (classified d s).build)

/-- What has been built when the library of a classification has been made. -/
def built (d : Description) (s : Settings) (c : Classification) : Build :=
  (outcome (ofClassification d s c) c.build).2

/-- A library is made on the way from the start to a last state: its resources are the entities
there, and each of its methods is made of an entry of the agenda. -/
structure MadeOf (l : Library) (d : Description) (s : Settings) (final : Assembly) : Prop where
  resources : l.resources.map (fun c => (c.name, c.properties)) =
    final.2.registry.entities.map fun e => (e.name, e.properties)
  method {kind : ClassKind} {className : String} {m : Route} :
    HasMethod l kind className m → ∃ e x x', e.kind = kind ∧ e.className = className ∧
      MadeAmong d.document (agenda (classified d s)) (start d s) e x m x' final

/-- A manager is made of a class, with what its methods build or accept. -/
def MakesManager (d : Description) (s : Settings) (b : Bucket) (x : Assembly)
    (g : GeneratedClass) (x' : Assembly) : Prop :=
  ∃ types, Produces (routes d.document b) x (g.routes, types) x' ∧ g.name = b.name ∧
    g.uses = usesOf (Namespace.normalize s.baseNamespace) (Namespace.clientName s) .manager
      (b.uses ++ types)

/-- The methods of a resource are made of a class. -/
def MakesTagged (d : Description) (b : Bucket) (x : Assembly)
    (t : Bucket × List Route × List String) (x' : Assembly) : Prop :=
  t.1 = b ∧ Produces (routes d.document b) x t.2 x'

/-- How the parts of a library come from the classes of a classification: first the managers are
made, then the methods of the resources, and at last every entity becomes a resource. -/
structure HasParts (l : Library) (d : Description) (s : Settings) (c : Classification)
    (tagged : List (Bucket × List Route × List String)) (x final : Assembly) : Prop where
  managers : Along (MakesManager d s) (c.ofKind .manager) ([], c.build) l.managers x
  methods : Along (MakesTagged d) (c.ofKind .resource) x tagged final
  resources : l.resources.map (fun c => (c.name, c.properties)) =
    final.2.registry.entities.map fun e => (e.name, e.properties)
  routes : ∀ r ∈ l.resources, r.routes = ((tagged.find? (·.1.name = r.name)).map (·.2.1)).getD []
  client : l.client.managers = l.managers.map (·.name)
  warnings : l.warnings = c.warnings
  built : final.2.Same (built d s c)

theorem exists_hasParts_ofClassification {d : Description} {s : Settings} {c : Classification}
    {b' : Build} {l : Library} (h : Yields (ofClassification d s c) c.build l b') :
    ∃ tagged x final, HasParts l d s c tagged x final := by
  obtain ⟨⟨⟨managers, tagged⟩, memo⟩, b₁, hmake, h₁⟩ := yields_bind.1 h
  obtain ⟨r, b₂, hr, h₂⟩ := yields_bind.1 h₁
  obtain ⟨rfl, rfl⟩ := Building.yields_registry.1 hr
  obtain ⟨u, b₃, hnote, hpure⟩ := yields_bind.1 h₂
  obtain ⟨rfl, rfl⟩ := yields_pure.1 hpure
  have hproduced : Produces _ ([], c.build) (managers, tagged) (memo, b₂) := hmake
  obtain ⟨managers', x, hmanagers, h₄⟩ := produces_bind.1 hproduced
  obtain ⟨tagged', x', htagged, hpure⟩ := produces_bind.1 h₄
  obtain ⟨heq, hx'⟩ := produces_pure.1 hpure
  obtain ⟨rfl, rfl⟩ := Prod.mk.inj heq
  refine ⟨tagged, x, (memo, b₂), ?managers, ?methods, ?resources, ?routes, rfl, rfl, ?built⟩
  case managers =>
    refine (along_of_produces_mapM hmanagers).imp fun b y g y' hstep => ?_
    obtain ⟨⟨made, types⟩, y₁, hroutes, hpure⟩ := produces_bind.1 hstep
    obtain ⟨rfl, rfl⟩ := produces_pure.1 hpure
    exact ⟨types, hroutes, rfl, by dsimp only⟩
  case methods =>
    rw [hx']
    refine (along_of_produces_mapM htagged).imp fun b y t y' hstep => ?_
    obtain ⟨made, y₁, hroutes, hpure⟩ := produces_bind.1 hstep
    obtain ⟨rfl, rfl⟩ := produces_pure.1 hpure
    exact ⟨rfl, hroutes⟩
  case resources =>
    rw [List.map_map]
    rfl
  case routes =>
    intro r hr
    obtain ⟨e, -, rfl⟩ := List.mem_map.1 hr
    dsimp only
    cases tagged.find? fun t => t.1.name = e.name <;> rfl
  case built =>
    rw [show built d s c = b' from congrArg Prod.snd h]
    exact Building.yields_note hnote

/-- A library is made of the classes of a classification that has succeeded. -/
theorem exists_hasParts {d : Description} {s : Settings} {l : Library}
    (h : (ofDescription d s).1 = .ok l) :
    Yields (Classification.addOperations d.document s.strictOperationIds d.operations) {} ()
        (classified d s) ∧
      ∃ tagged x final, HasParts l d s (classified d s) tagged x final := by
  unfold ofDescription at h
  cases hc : Classification.ofOperations d.document s.strictOperationIds d.operations with
  | mk result c =>
      have hclassified : classified d s = c := congrArg Prod.snd hc
      rw [hc] at h
      cases result with
      | error fault => cases h
      | ok u =>
          rw [hclassified]
          exact ⟨hc, exists_hasParts_ofClassification (yields_outcome h)⟩

theorem MakesManager.along {d : Description} {s : Settings} {b : Bucket} {x x' : Assembly}
    {g : GeneratedClass} (h : MakesManager d s b x g x') :
    Along (Makes d.document) (entriesOf b) x g.routes x' := by
  obtain ⟨types, hroutes, -⟩ := h
  exact along_routes hroutes

theorem MakesManager.name {d : Description} {s : Settings} {b : Bucket} {x x' : Assembly}
    {g : GeneratedClass} (h : MakesManager d s b x g x') : g.name = b.name := by
  obtain ⟨types, -, hname, -⟩ := h
  exact hname

theorem MakesTagged.along {d : Description} {b : Bucket} {x x' : Assembly}
    {t : Bucket × List Route × List String} (h : MakesTagged d b x t x') :
    Along (Makes d.document) (entriesOf b) x t.2.1 x' :=
  along_routes h.2

namespace HasParts

variable {l : Library} {d : Description} {s : Settings} {c : Classification}
  {tagged : List (Bucket × List Route × List String)} {x final : Assembly}

theorem steps_managers (h : HasParts l d s c tagged x final) :
    Steps d.document ((c.ofKind .manager).flatMap entriesOf) ([], c.build) x :=
  ⟨_, h.managers.flatMap fun _ _ _ _ h => h.along⟩

theorem steps_methods (h : HasParts l d s c tagged x final) :
    Steps d.document ((c.ofKind .resource).flatMap entriesOf) x final :=
  ⟨_, h.methods.flatMap fun _ _ _ _ h => h.along⟩

theorem writes (h : HasParts l d s c tagged x final) : c.build.Writes final.2 :=
  trans_of Build.Writes h.steps_managers.spans h.steps_methods.spans

theorem madeOf (h : HasParts l d s (classified d s) tagged x final) : MadeOf l d s final := by
  refine ⟨h.resources, fun {kind className m} hm => ?_⟩
  unfold agenda start
  rw [List.flatMap_append]
  cases hm with
  | @manager g _ hg hm =>
      obtain ⟨b, y, y', hb, ⟨types, -, hname, -⟩, e, z, z', he, hmade⟩ :=
        madeAmong_of_mem (·.routes) (fun _ _ _ _ h => h.along) h.managers hg hm
      obtain ⟨p, -, rfl⟩ := List.mem_map.1 he
      refine ⟨⟨b.kind, b.name, p.2⟩, z, z', ?_, hname.symm, ?_⟩
      · simpa using (List.mem_filter.1 hb).2
      · exact (Steps.nil _).within hmade h.steps_methods
  | @resource r _ hr hm =>
      rw [h.routes r hr] at hm
      cases hfind : tagged.find? (·.1.name = r.name) with
      | none =>
          rw [hfind] at hm
          cases hm
      | some t =>
          rw [hfind] at hm
          have htname : t.1.name = r.name := by simpa using List.find?_some hfind
          obtain ⟨b, y, y', hb, ⟨rfl, -⟩, e, z, z', he, hmade⟩ :=
            madeAmong_of_mem (·.2.1) (fun _ _ _ _ h => h.along) h.methods
              (List.mem_of_find?_eq_some hfind) hm
          obtain ⟨p, -, rfl⟩ := List.mem_map.1 he
          refine ⟨⟨t.1.kind, t.1.name, p.2⟩, z, z', ?_, htname, ?_⟩
          · simpa using (List.mem_filter.1 hb).2
          · simpa using h.steps_managers.within hmade (Steps.nil _)

end HasParts

theorem exists_madeOf {d : Description} {s : Settings} {l : Library}
    (h : (ofDescription d s).1 = .ok l) : ∃ final, MadeOf l d s final := by
  obtain ⟨-, tagged, x, final, hparts⟩ := exists_hasParts h
  exact ⟨final, hparts.madeOf⟩

/-- The methods of a library, with their classes. -/
def methods (l : Library) : List (ClassKind × String × Route) :=
  l.managers.flatMap (fun c => c.routes.map fun m => (ClassKind.manager, c.name, m)) ++
    l.resources.flatMap (fun c => c.routes.map fun m => (ClassKind.resource, c.name, m))

theorem hasMethod_of_mem_methods {l : Library} {kind : ClassKind} {className : String}
    {m : Route} (h : (kind, className, m) ∈ l.methods) : HasMethod l kind className m := by
  rcases List.mem_append.1 h with h | h
  all_goals
    obtain ⟨c, hc, h⟩ := List.mem_flatMap.1 h
    obtain ⟨m', hm, heq⟩ := List.mem_map.1 h
    cases heq
  · exact .manager hc hm
  · exact .resource hc hm

/-- What is told of the first method of the library of a document, and the class of the method. -/
def ofFirstMethod (doc : Document) (f : Library → Route → α) :
    Option (ClassKind × String × α) := do
  let d ← (Description.ofDocument doc "3.0.0").toOption
  let l ← (ofDescription d {}).1.toOption
  let (kind, className, m) ← l.methods.head?
  return (kind, className, f l m)

theorem exists_of_ofFirstMethod {doc : Document} {f : Library → Route → α} {kind : ClassKind}
    {className : String} {a : α} (h : ofFirstMethod doc f = some (kind, className, a)) :
    ∃ d l m, Description.ofDocument doc "3.0.0" = .ok d ∧ (ofDescription d {}).1 = .ok l ∧
      HasMethod l kind className m ∧ f l m = a := by
  obtain ⟨d, hd, h⟩ := Option.bind_eq_some_iff.1 h
  obtain ⟨l, hl, h⟩ := Option.bind_eq_some_iff.1 h
  obtain ⟨⟨kind, className, m⟩, hm, h⟩ := Option.bind_eq_some_iff.1 h
  cases h
  exact ⟨d, l, m, toOption_eq_some.1 hd, toOption_eq_some.1 hl,
    hasMethod_of_mem_methods (List.mem_of_head? hm), rfl⟩

end OpenApiClient.Library
