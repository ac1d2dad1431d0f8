import OpenApiClient.Proofs.Assembly
import OpenApiClient.Proofs.MirroredClassification
import OpenApiClient.Proofs.MirroredParameters

/-!
# Libraries of mirrored descriptions

A library keeps the operations that its methods are made of, with nodes of the document in which
they stand; nothing is written of these nodes.  Apart from them the libraries of a description and
of its copy are the same.
-/

namespace OpenApiClient

open Walk

variable {role : Role} {doc doc' : Document}

/-- An operation without the nodes that stay as they stand in the document. -/
def Operation.heading (o : Operation) : Operation :=
  { o with parameters := [], requestBody := none, responses := [] }

theorem Operation.Mirrors.heading {o o' : Operation} (ho : o.Mirrors doc doc' o') :
    o'.heading = o.heading := by
  rw [ho.eq]
  rfl

/-- A method apart from nodes of the document and from origins. -/
def Route.bare (m : Route) : Route :=
  { m with
    operation := m.operation.heading
    pathParameters := Parameter.bareNamed m.pathParameters
    queryParameters := Parameter.bareNamed m.queryParameters
    bodyParameters := Parameter.bareNamed m.bodyParameters
    methodParameters := m.methodParameters.map Parameter.bare }

def GeneratedClass.bare (c : GeneratedClass) : GeneratedClass :=
  { c with routes := c.routes.map Route.bare }

def ResourceClass.bare (c : ResourceClass) : ResourceClass :=
  { c with routes := c.routes.map Route.bare }

/-- A library apart from nodes of the document and from origins. -/
def Library.bare (l : Library) : Library :=
  { l with managers := l.managers.map GeneratedClass.bare
           resources := l.resources.map ResourceClass.bare }

/-- A description and its copy, read off a document and its copy. -/
structure Description.Mirrors (d d' : Description) : Prop where
  information : d'.information = d.information
  servers : d'.servers = d.servers
  securitySchemes : d'.securitySchemes = d.securitySchemes
  operations : List.Forall₂ (Operation.Mirrors d.document d'.document) d.operations d'.operations

namespace Library

variable {α β γ δ : Type} {R : α → β → Prop} {T : γ → δ → Prop}

/-- From equal memos on, the makings run in parallel and end at equal memos. -/
def Abreast (doc doc' : Document) (R : α → β → Prop) (m : Assembling α) (m' : Assembling β) :
    Prop :=
  ∀ memo, Parallel (Build.Mirrors doc doc') (fun x y => R x.1 y.1 ∧ y.2 = x.2) (m.run memo)
    (m'.run memo)

namespace Abreast

theorem pure {a : α} {b : β} (h : R a b) : Abreast doc doc' R (Pure.pure a) (Pure.pure b) :=
  fun _ => Parallel.pure ⟨h, rfl⟩

theorem bind {m : Assembling α} {m' : Assembling β} {f : α → Assembling γ} {f' : β → Assembling δ}
    (hm : Abreast doc doc' R m m') (hf : ∀ a b, R a b → Abreast doc doc' T (f a) (f' b)) :
    Abreast doc doc' T (m >>= f) (m' >>= f') := by
  intro memo
  rw [StateT.run_bind, StateT.run_bind]
  refine (hm memo).bind ?_
  rintro ⟨a, _⟩ ⟨b, memo'⟩ ⟨hab, rfl⟩
  exact hf a b hab memo'

theorem building {m : Building α} {m' : Building β} (h : Parallel (Build.Mirrors doc doc') R m m') :
    Abreast doc doc' R (liftM m : Assembling α) (liftM m' : Assembling β) :=
  fun _ => h.bind fun _ _ hab => Parallel.pure ⟨hab, rfl⟩

theorem lift {x : Except Fault α} {y : Except Fault β} (h : Matches R x y) :
    Abreast doc doc' R (liftM x : Assembling α) (liftM y : Assembling β) :=
  building (Parallel.lift h)

theorem get : Abreast doc doc' (fun memo memo' => memo' = memo) get get :=
  fun _ => Parallel.pure ⟨rfl, rfl⟩

theorem modify (f : List (Nat × Responses) → List (Nat × Responses)) :
    Abreast doc doc' (fun _ _ => True) (modify f) (modify f) :=
  fun _ => Parallel.pure ⟨trivial, rfl⟩

theorem rethrow {m : Assembling α} {m' : Assembling β} {g g' : Fault → Fault}
    (h : Abreast doc doc' R m m') :
    Abreast doc doc' R (tryCatch m fun e => throw (g e)) (tryCatch m' fun e => throw (g' e)) :=
  fun memo => (h memo).rethrow

theorem mapM {f : α → Assembling γ} {f' : β → Assembling δ} {l : List α} {l' : List β}
    (h : List.Forall₂ R l l') (hf : ∀ a b, R a b → Abreast doc doc' T (f a) (f' b)) :
    Abreast doc doc' (List.Forall₂ T) (l.mapM f) (l'.mapM f') := by
  induction h with
  | nil => exact pure .nil
  | cons hab _ ih =>
      rw [List.mapM_cons, List.mapM_cons]
      exact (hf _ _ hab).bind fun _ _ hcd => ih.bind fun _ _ hrest => pure (.cons hcd hrest)

end Abreast

variable {p p' : PlacedOperation}

theorem abreast_completed (hp : p.Mirrors doc doc' p') :
    Abreast doc doc' (fun rs rs' => rs' = rs) (completed p) (completed p') := by
  refine Abreast.get.bind fun _ memo hmemo => ?_
  subst hmemo
  rw [hp.position, hp.responses]
  cases memo.lookup p.position with
  | some rs => exact Abreast.pure rfl
  | none =>
      refine (Abreast.building Building.parallel_registry).bind fun _ r hr => ?_
      subst hr
      exact (Abreast.modify _).bind fun _ _ _ => Abreast.pure rfl

/-- The methods of an operation and of its copy are the same. -/
theorem abreast_route (h : doc.Mirrors role doc') (kind : ClassKind) (className : String)
    (hp : p.Mirrors doc doc' p') :
    Abreast doc doc' (fun m m' => m'.bare = m.bare) (route doc kind className p)
      (route doc' kind className p') := by
  have ho := hp.operation
  refine (abreast_completed hp).bind fun _ rs hrs => ?_
  subst hrs
  refine (Abreast.building Building.parallel_registry).bind fun _ r hr => ?_
  subst hr
  refine (Abreast.lift (Parameter.inPath_matches ho)).bind fun path path' hpath => ?_
  refine (Abreast.lift (Parameter.inQuery_matches ho)).bind fun query query' hquery => ?_
  refine (Abreast.building (Parameter.parallel_inBody h ho)).bind fun body body' hbody => ?_
  refine (Abreast.building (Parameter.parallel_ofMethod h ho)).bind fun ps ps' hps => ?_
  refine (Abreast.lift (Parameter.contentType_matches ho)).bind fun _ mediaType htype => ?_
  subst htype
  refine Abreast.lift (Fields.fill_matches rfl ?_)
  unfold Route.bare
  rw [ho.heading, hpath, hquery, hbody, hps]

theorem entityOf?_rename (r : Registry) (ρ : Nat → Nat) (v : Value) :
    entityOf? r (v.rename ρ) = entityOf? r v := by
  unfold entityOf?
  rw [Value.isFilled_rename, Value.isKey_rename]
  cases v <;> simp

theorem typesOf_bare (r : Registry) (m : Route) : typesOf r m.bare = typesOf r m := by
  have hbody : m.bare.bodyParameters = m.bodyParameters.map (Prod.map id Parameter.bare) := rfl
  unfold typesOf
  rw [hbody, List.mapM_map]
  simp only [Function.comp_def, Prod.map, Parameter.bare, Value.bare, entityOf?_rename]
  rfl

/-- The methods of a class and of its copy are the same, and so are the entities that they build or
accept. -/
theorem abreast_routes (h : doc.Mirrors role doc') {b b' : Bucket} (hb : b.Mirrors doc doc' b') :
    Abreast doc doc'
      (fun made made' => made'.1.map Route.bare = made.1.map Route.bare ∧ made'.2 = made.2)
      (routes doc b) (routes doc' b') := by
  refine (Abreast.mapM (T := fun x y => y.1.bare = x.1.bare ∧ y.2 = x.2) hb.routes
    fun q q' hq => ?_).bind fun made made' hmade => ?_
  · obtain ⟨id, p⟩ := q
    obtain ⟨id', p'⟩ := q'
    dsimp only
    rw [hb.kind, hb.name]
    refine (abreast_route h b.kind b.name hq.2).rethrow.bind fun m m' hm => ?_
    refine (Abreast.building Building.parallel_registry).bind fun _ r hr => ?_
    subst hr
    have htypes : typesOf r m' = typesOf r m := by
      rw [← typesOf_bare, hm, typesOf_bare]
    refine (Abreast.lift (matches_of_eq htypes)).bind fun _ types htypes => ?_
    exact Abreast.pure ⟨hm, htypes⟩
  · refine Abreast.pure ⟨?_, ?_⟩
    · rw [List.map_map, List.map_map]
      exact map_eq_of_forall₂ (fun _ _ hm => hm.1) hmade
    · have htypes := map_eq_of_forall₂ (f := Prod.snd) (g := Prod.snd) (fun _ _ hm => hm.2) hmade
      rw [List.flatMap_def, List.flatMap_def, htypes]

/-- The manager of a class, with its methods and the entities that they build or accept. -/
def managerOf (s : Settings) (b : Bucket) (made : List Route × List String) : GeneratedClass :=
  { name := b.name, space := spaceOf (Namespace.normalize s.baseNamespace) .manager
    title := b.name ++ " manager class"
    uses := usesOf (Namespace.normalize s.baseNamespace) (Namespace.clientName s) .manager
      (b.uses ++ made.2)
    routes := made.1 }

/-- The resource of an entity, with the methods of the class of its name. -/
def resourceOf (s : Settings) (tagged : List (Bucket × List Route × List String)) (e : Entity) :
    ResourceClass :=
  let (uses, made, types) := match tagged.find? fun (b, _) => b.name = e.name with
    | some (b, made, types) => (b.uses, made, types)
    | none => ([], [], [])
  { name := e.name, space := spaceOf (Namespace.normalize s.baseNamespace) .resource
    title := e.name ++ " resource class"
    uses := usesOf (Namespace.normalize s.baseNamespace) (Namespace.clientName s) .resource
      (e.uses ++ uses ++ types)
    routes := made, properties := e.properties }

/-- Makes the managers and the methods of the resources. -/
def makeMethods (doc : Document) (s : Settings) (c : Classification) :
    Assembling (List GeneratedClass × List (Bucket × List Route × List String)) := do
  let managers ← (c.ofKind .manager).mapM fun b => return managerOf s b (← routes doc b)
  let tagged ← (c.ofKind .resource).mapM fun b => return (b, ← routes doc b)
  return (managers, tagged)

theorem ofClassification_eq (d : Description) (s : Settings) (c : Classification) :
    ofClassification d s c = (do
      let ((managers, tagged), _) ← (makeMethods d.document s c).run []
      let resources := (← Building.registry).entities.map (resourceOf s tagged)
      Building.note .info "compiler.assembler"
        ("Compiled " ++ toString managers.length ++ " manager(s), " ++
          toString resources.length ++ " resource(s) from " ++ toString d.operations.length ++
          " operation(s)")
      return { client := clientOf d (Namespace.normalize s.baseNamespace) (Namespace.clientName s)
                (managers.map (·.name))
               managers, resources, exceptions := exceptionsOf (Namespace.normalize s.baseNamespace)
               warnings := c.warnings }) :=
  rfl

/-- Two classes of resources have the same methods and use the same. -/
structure SameMethods (t t' : Bucket × List Route × List String) : Prop where
  name : t'.1.name = t.1.name
  uses : t'.1.uses = t.1.uses
  routes : t'.2.1.map Route.bare = t.2.1.map Route.bare
  types : t'.2.2 = t.2.2

theorem abreast_makeMethods (h : doc.Mirrors role doc') (s : Settings) {c c' : Classification}
    (hc : c.Mirrors doc doc' c') :
    Abreast doc doc' (fun x y => List.Forall₂ (fun g g' => g'.bare = g.bare) x.1 y.1 ∧
      List.Forall₂ SameMethods x.2 y.2) (makeMethods doc s c) (makeMethods doc' s c') := by
  have hkind (kind : ClassKind) :
      List.Forall₂ (Bucket.Mirrors doc doc') (c.ofKind kind) (c'.ofKind kind) :=
    List.rel_filter (fun b b' hb => by simp [hb.kind]) hc.buckets
  refine (Abreast.mapM (hkind .manager) fun b b' hb => ?manager).bind fun managers managers' hm =>
    (Abreast.mapM (hkind .resource) fun b b' hb => ?resource).bind fun tagged tagged' ht =>
      Abreast.pure ⟨hm, ht⟩
  case manager =>
    refine (abreast_routes h hb).bind fun made made' hmade => Abreast.pure ?_
    unfold managerOf GeneratedClass.bare
    rw [hb.name, hb.uses, hmade.1, hmade.2]
  case resource =>
    exact (abreast_routes h hb).bind fun made made' hmade =>
      Abreast.pure ⟨hb.name, hb.uses, hmade.1, hmade.2⟩

theorem resourceOf_bare (s : Settings) {tagged tagged' : List (Bucket × List Route × List String)}
    (h : List.Forall₂ SameMethods tagged tagged') (e : Entity) :
    (resourceOf s tagged' e).bare = (resourceOf s tagged e).bare := by
  have hfind := rel_find? (f := fun t => t.1.name = e.name) (g := fun t => t.1.name = e.name) h
    fun t t' ht => by rw [ht.name]
  unfold resourceOf ResourceClass.bare
  dsimp only
  generalize tagged.find? (fun t => t.1.name = e.name) = t,
    tagged'.find? (fun t => t.1.name = e.name) = t' at hfind
  cases hfind with
  | none => rfl
  | some ht =>
      dsimp only
      rw [ht.uses, ht.types, ht.routes]

/-- The library of a classification and that of its copy are the same. -/
theorem parallel_ofClassification {d d' : Description} (hd : d.Mirrors d')
    (h : d.document.Mirrors role d'.document) (s : Settings) {c c' : Classification}
    (hc : c.Mirrors d.document d'.document c') :
    Parallel (Build.Mirrors d.document d'.document) (fun l l' => l'.bare = l.bare)
      (ofClassification d s c) (ofClassification d' s c') := by
  rw [ofClassification_eq, ofClassification_eq]
  refine (abreast_makeMethods h s hc []).bind ?_
  rintro ⟨⟨managers, tagged⟩, memo⟩ ⟨⟨managers', tagged'⟩, memo'⟩ ⟨⟨hmanagers, htagged⟩, -⟩
  refine Building.parallel_registry.bind fun _ r hr => ?_
  subst hr
  refine (Building.parallel_note _ _ _ _ _ _).bind fun _ _ _ => Parallel.pure ?_
  have hnames : managers'.map (·.name) = managers.map (·.name) := by
    refine map_eq_of_forall₂ (fun g g' hg => ?_) hmanagers
    have hname := congrArg GeneratedClass.name hg
    exact hname
  have hresources : (r.entities.map (resourceOf s tagged')).map ResourceClass.bare =
      (r.entities.map (resourceOf s tagged)).map ResourceClass.bare := by
    rw [List.map_map, List.map_map]
    exact List.map_congr_left fun e _ => resourceOf_bare s htagged e
  unfold bare clientOf
  rw [map_eq_of_forall₂ (fun _ _ hg => hg) hmanagers, hresources, hnames, hc.warnings,
    hd.information, hd.servers, hd.securitySchemes]

/-- The library of a description and that of its copy are the same, if there are any. -/
theorem ofDescription_matches {d d' : Description} (hd : d.Mirrors d')
    (h : d.document.Mirrors role d'.document) (s : Settings) :
    Matches (fun l l' => l'.bare = l.bare) (ofDescription d s).1 (ofDescription d' s).1 := by
  have hstart : Classification.Mirrors d.document d'.document {} {} :=
    ⟨.nil, rfl, ⟨rfl, .nil⟩⟩
  have hclassified := Classification.parallel_addOperations h s.strictOperationIds hd.operations
    {} {} hstart
  unfold outcome at hclassified
  unfold ofDescription Classification.ofOperations
  generalize (Classification.addOperations d.document s.strictOperationIds d.operations).run {} = o,
    (Classification.addOperations d'.document s.strictOperationIds d'.operations).run {} = o'
    at hclassified ⊢
  obtain ⟨x, c⟩ := o
  obtain ⟨y, c'⟩ := o'
  cases hclassified with
  | ok hab =>
      exact (parallel_ofClassification hd h s hab.2 c.build c'.build hab.2.build).mono
        fun _ _ hl => hl.1
  | error => exact .error _ _

end Library

end OpenApiClient
