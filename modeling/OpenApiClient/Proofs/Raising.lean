import OpenApiClient.Description.Extraction
import OpenApiClient.Proofs.Composition
import OpenApiClient.Proofs.Repetition
import OpenApiClient.Proofs.Strictness

/-!
# Failures that no operation is noted with

Reading a document, making entities and placing operations fail in many places, and none of these
places knows for which operation it works.  Whatever they raise is bare: no operation is noted with
it.  Walks raise bare faults only as soon as their parts do.
-/

namespace OpenApiClient

open Walk

namespace Fault

/-- No operation is noted with the fault. -/
def IsBare : Fault → Prop
  | .failed f => f.operation = none
  | _ => True

theorem isBare_of (cause : Cause) : (of cause).IsBare := rfl

theorem isBare_refused (r : Refusal) : (refused r).IsBare := trivial

theorem isBare_ofValue (cause : String → Cause) (v : Value) : (ofValue cause v).IsBare := by
  unfold ofValue
  split
  · exact isBare_of _
  · exact isBare_refused _

/-- The fault is no failure, and nothing that an operation could be noted with. -/
def IsNoFailure : Fault → Prop
  | .failed _ => False
  | _ => True

theorem IsNoFailure.isBare {e : Fault} (h : e.IsNoFailure) : e.IsBare := by
  cases e with
  | failed f => exact h.elim
  | _ => trivial

/-- A bare failure is told by its cause. -/
theorem IsBare.exists_eq_of {f : Failure} (h : (failed f).IsBare) :
    ∃ cause, failed f = of cause :=
  ⟨f.cause, congrArg failed (congrArg (Failure.mk f.cause) h)⟩

end Fault

section Raising

variable {σ α β : Type} {P Q : Fault → Prop}

/-- An outcome that is a result or a fault of some kind. -/
def OnlyRaises (P : Fault → Prop) (x : Except Fault α) : Prop := ∀ e, x = .error e → P e

namespace OnlyRaises

theorem ok (a : α) : OnlyRaises P (.ok a) := nofun

theorem error {e : Fault} (h : P e) : OnlyRaises P (.error e : Except Fault α) := by
  rintro _ ⟨⟩
  exact h

theorem mono {x : Except Fault α} (hx : OnlyRaises P x) (h : ∀ e, P e → Q e) : OnlyRaises Q x :=
  fun e he => h e (hx e he)

theorem bind {x : Except Fault α} {f : α → Except Fault β} (hx : OnlyRaises P x)
    (hf : ∀ a, OnlyRaises P (f a)) : OnlyRaises P (x >>= f) := by
  cases x with
  | error e => exact error (hx e rfl)
  | ok a => exact hf a

theorem map {x : Except Fault α} (hx : OnlyRaises P x) (f : α → β) : OnlyRaises P (x.map f) := by
  cases x with
  | error e => exact error (hx e rfl)
  | ok a => exact ok (f a)

theorem mapM {f : α → Except Fault β} {l : List α} (hf : ∀ a, OnlyRaises P (f a)) :
    OnlyRaises P (l.mapM f) := by
  induction l with
  | nil => exact ok []
  | cons a l ih =>
      rw [List.mapM_cons]
      exact (hf a).bind fun b => ih.bind fun bs => ok (b :: bs)

theorem filterM {f : α → Except Fault Bool} {l : List α} (hf : ∀ a, OnlyRaises P (f a)) :
    OnlyRaises P (l.filterM f) := by
  suffices haux : ∀ kept, OnlyRaises P (l.filterAuxM f kept) from (haux []).bind fun kept => ok _
  induction l with
  | nil => exact fun kept => ok kept
  | cons a l ih => exact fun kept => (hf a).bind fun b => ih _

end OnlyRaises

abbrev Bare (x : Except Fault α) : Prop := OnlyRaises Fault.IsBare x

/-- An outcome that is no failure. -/
abbrev Unfailing (x : Except Fault α) : Prop := OnlyRaises Fault.IsNoFailure x

theorem Unfailing.bare {x : Except Fault α} (h : Unfailing x) : Bare x :=
  h.mono fun _ => Fault.IsNoFailure.isBare

theorem unfailing_refused (r : Refusal) : Unfailing (.error (.refused r) : Except Fault α) :=
  .error trivial

/-- A walk that raises bare faults only, wherever it starts. -/
def RaisesBare (m : ExceptT Fault (StateM σ) α) : Prop := ∀ s, Bare (outcome m s).1

namespace RaisesBare

theorem pure (a : α) : RaisesBare (Pure.pure a : ExceptT Fault (StateM σ) α) := fun _ => .ok a

theorem throw {e : Fault} (h : e.IsBare) :
    RaisesBare (MonadExcept.throw e : ExceptT Fault (StateM σ) α) := fun _ => .error h

theorem lift {x : Except Fault α} (h : Bare x) :
    RaisesBare (liftM x : ExceptT Fault (StateM σ) α) := fun _ => h

theorem bind {m : ExceptT Fault (StateM σ) α} {f : α → ExceptT Fault (StateM σ) β}
    (hm : RaisesBare m) (hf : ∀ a, RaisesBare (f a)) : RaisesBare (m >>= f) := by
  intro s
  have h := hm s
  rw [outcome_bind]
  rcases hout : outcome m s with ⟨e | a, s'⟩
  · rw [hout] at h
    exact .error (h e rfl)
  · exact hf a s'

theorem map {m : ExceptT Fault (StateM σ) α} (hm : RaisesBare m) (f : α → β) :
    RaisesBare (f <$> m) := by
  rw [map_eq_pure_bind]
  exact hm.bind fun a => pure (f a)

theorem mapM {f : α → ExceptT Fault (StateM σ) β} (l : List α) (hf : ∀ a, RaisesBare (f a)) :
    RaisesBare (l.mapM f) := by
  induction l with
  | nil => exact pure []
  | cons a l ih =>
      rw [List.mapM_cons]
      exact (hf a).bind fun b => ih.bind fun bs => pure (b :: bs)

theorem forIn {f : α → β → ExceptT Fault (StateM σ) (ForInStep β)} (l : List α) (b : β)
    (hf : ∀ a ∈ l, ∀ b, RaisesBare (f a b)) : RaisesBare (ForIn.forIn l b f) := by
  induction l generalizing b with
  | nil => exact pure b
  | cons a l ih =>
      rw [List.forIn_cons]
      refine (hf a List.mem_cons_self b).bind fun step => ?_
      cases step with
      | done b => exact pure b
      | yield b => exact ih b fun a' ha' => hf a' (List.mem_cons_of_mem a ha')

theorem of_succeeds {m : ExceptT Fault (StateM σ) α} (h : Succeeds m) : RaisesBare m := by
  intro s
  obtain ⟨a, s', hyields⟩ := h s
  rw [show outcome m s = (.ok a, s') from hyields]
  exact .ok a

end RaisesBare

end Raising

section Values

variable (v w : Value) (name : String)

theorem Value.unfailing_fieldOr (default : Value) : Unfailing (v.fieldOr name default) := by
  unfold Value.fieldOr
  split
  · exact .ok _
  · exact unfailing_refused _

theorem Value.unfailing_entriesOrNone : Unfailing v.entriesOrNone := by
  unfold Value.entriesOrNone
  split
  · split
    · exact .ok _
    · exact unfailing_refused _
  · exact .ok _

theorem Value.unfailing_members : Unfailing v.members := by
  unfold Value.members
  split <;> first | exact .ok _ | exact unfailing_refused _

theorem Value.unfailing_membersOrNone : Unfailing v.membersOrNone := by
  unfold Value.membersOrNone
  split
  · exact v.unfailing_members
  · exact .ok _

theorem Value.unfailing_contains : Unfailing (v.contains w) := by
  have hbyte (n : Int) (bs : List UInt8) : Unfailing (Value.contains.byteIn n bs) := by
    unfold Value.contains.byteIn
    split
    · exact .ok _
    · exact unfailing_refused _
  unfold Value.contains
  split <;> (try split) <;> (try split) <;>
    first | exact .ok _ | exact unfailing_refused _ | exact hbyte _ _

theorem Value.unfailing_index : Unfailing (v.index w) := by
  have helim (o : Option Value) (r : Refusal) :
      Unfailing (o.elim (.error (.refused r)) Except.ok) := by
    cases o with
    | none => exact unfailing_refused r
    | some x => exact .ok x
  have hposition (items : List Value) (n : Int) : Unfailing (Value.index.atPosition items n) := by
    unfold Value.index.atPosition
    dsimp only
    generalize (if n < 0 then n + items.length else n) = k
    split
    · exact unfailing_refused _
    · exact helim _ _
  unfold Value.index
  split <;> (try split) <;>
    first | exact unfailing_refused _ | exact helim _ _ | exact hposition _ _

end Values

theorem Fields.unfailing_fill {α : Type} (record : RecordKind) (issues : List (Option Issue))
    (value : α) : Unfailing (fill record issues value) := by
  unfold fill
  split
  · exact .ok _
  · exact .error trivial

namespace Pointer

theorem unfailing_step? (node : Value) (segment : String) : Unfailing (step? node segment) := by
  unfold step?
  split
  · exact .ok _
  · split
    · split
      · exact .ok _
      · exact unfailing_refused _
    · exact .ok _
  · exact .ok _

theorem bare_walk (p : String) (segments walked : List String) (node : Value) :
    Bare (walk p walked node segments) := by
  induction segments generalizing walked node with
  | nil => exact .ok node
  | cons segment rest ih =>
      have hstep := (unfailing_step? node segment).bare
      unfold walk
      split
      · next fault heq => exact .error (hstep fault heq)
      · exact ih _ _
      · exact .error (Fault.isBare_of _)

end Pointer

namespace Document

variable (doc : Document)

theorem bare_resolve (pointer : Value) : Bare (doc.resolve pointer) := by
  unfold resolve
  split
  · split
    · exact .error (Fault.isBare_of _)
    · dsimp only
      split
      · exact (Pointer.bare_walk _ _ _ _).map _
      · exact .error (Fault.isBare_of _)
  · exact .error (Fault.isBare_ofValue _ _)

theorem bare_chase (unused : List String) (node : Value) : Bare (doc.chase unused node) := by
  fun_induction chase doc unused node with
  | case1 => exact .ok _
  | case2 unused node p _ _ fault hr => exact .error (doc.bare_resolve _ fault hr)
  | case3 _ _ _ _ _ _ _ _ ih => exact ih
  | case4 => exact .ok _
  | case5 => exact .error (Fault.isBare_ofValue _ _)
  | case6 => exact (unfailing_refused _).bare

theorem bare_settle (node : Value) : Bare (doc.settle node) := by
  unfold settle
  split
  · exact .ok _
  · exact doc.bare_chase _ _
  · exact doc.bare_chase _ _

end Document

namespace Schema

variable (doc : Document)

theorem bare_scalarTarget? (pointer : Value) : Bare (scalarTarget? doc pointer) :=
  (doc.bare_settle _).map _

theorem Typing.bare_ofItems (items description : Value) : Bare (ofItems doc items description) := by
  unfold ofItems
  split
  · refine (bare_scalarTarget? doc _).bind fun target => ?_
    cases target <;> exact .ok _
  · split <;> exact .ok _

theorem Typing.bare_ofSchema (schema : Value) : Bare (ofSchema doc schema) := by
  unfold ofSchema
  split
  · refine (bare_scalarTarget? doc _).bind fun target => ?_
    cases target <;> exact .ok _
  · split
    · exact .ok _
    · split
      · exact bare_ofItems doc _ _
      · exact .ok _

theorem bare_members (node : Value) : Bare (members node) := by
  unfold members
  split
  · exact .ok _
  · exact .ok _
  · exact (Value.unfailing_membersOrNone _).bare.map _

/-- The failures among contributions are bare. -/
def BareFailures (cs : List Contribution) : Prop := ∀ fault, .failure fault ∈ cs → fault.IsBare

theorem bareFailures_failure {fault : Fault} (h : fault.IsBare) :
    BareFailures [.failure fault] := by
  intro fault' hmem
  obtain rfl := Contribution.failure.inj (List.mem_singleton.1 hmem)
  exact h

theorem bareFailures_ownProperties (node : Value) : BareFailures (ownProperties node) := by
  intro fault hmem
  unfold ownProperties at hmem
  dsimp only at hmem
  split at hmem
  · next fault' heq =>
      obtain rfl := Contribution.failure.inj (List.mem_singleton.1 hmem)
      exact (Value.unfailing_entriesOrNone _).bare _ heq
  · obtain ⟨e, -, he⟩ := List.mem_map.1 hmem
    split at he
    · next fault' heq =>
        obtain rfl := Contribution.failure.inj he
        exact (Value.unfailing_contains _ _).bare _ heq
    · cases he

theorem bareFailures_closure (node : Value) : BareFailures (closure doc node) := by
  refine contributions_induction doc (fun _ _ cs => BareFailures cs) (fun _ _ cs => BareFailures cs)
    ?noReference ?fault ?followed ?cycle ?notText ?noMembers ?parts ?noMap (doc.reach node) node
  case noReference => exact fun _ _ _ ih => ih
  case followed => exact fun _ _ _ _ _ _ _ ih => ih
  case fault =>
    intro unused node p fault hr hp hs
    exact bareFailures_failure (doc.bare_settle node fault hs)
  case cycle =>
    intro unused node p hr hp fault hmem
    cases List.mem_singleton.1 hmem
  case notText =>
    intro unused node pointer hr hne
    refine bareFailures_failure ?_
    unfold pointerFault
    split
    · exact Fault.isBare_ofValue _ _
    · exact Fault.isBare_refused _
  case noMembers =>
    intro unused node fault hm hms
    exact bareFailures_failure (bare_members node fault hms)
  case parts =>
    intro unused node ms hm hms ih fault hmem
    rcases List.mem_append.1 hmem with hmem | hown
    · obtain ⟨m, hm', hmem⟩ := List.mem_flatMap.1 hmem
      exact ih m hm' fault hmem
    · exact bareFailures_ownProperties node fault hown
  case noMap =>
    intro unused node hm fault hmem
    cases hmem

end Schema

namespace Building

variable (doc : Document)

theorem raisesBare_note (level : Level) (origin message : String) :
    RaisesBare (note level origin message) :=
  .of_succeeds (Succeeds.modify _)

theorem raisesBare_modifyRegistry (f : Registry → Registry) : RaisesBare (modifyRegistry f) :=
  .of_succeeds (Succeeds.modify _)

theorem raisesBare_registry : RaisesBare registry :=
  .of_succeeds (Succeeds.get.bind fun _ => Succeeds.pure _)

theorem raisesBare_extend {refer : Value → Building String} (hr : ∀ p, RaisesBare (refer p))
    (entity : String) {c : Schema.Contribution} (hc : ∀ fault, c = .failure fault → fault.IsBare) :
    RaisesBare (extend refer doc entity c) := by
  have hadd (name : Scalar) (required : Bool) (t f d i : Value) : RaisesBare (do
      let property ← liftM (Property.ofValues required (Value.scalar name) t f d i)
      modifyRegistry fun r => r.modify entity fun e => e.addProperty property) :=
    (RaisesBare.lift (Fields.unfailing_fill _ _ _).bare).bind fun _ => raisesBare_modifyRegistry _
  cases c with
  | failure fault => exact .throw (hc fault rfl)
  | cycle p => exact raisesBare_note _ _ _
  | property name schema required =>
      unfold extend
      dsimp only
      split
      · exact .pure _
      · refine (RaisesBare.lift (Schema.Typing.bare_ofSchema doc schema)).bind fun typing => ?_
        cases typing with
        | unsupported => exact (raisesBare_note _ _ _).bind fun _ => .pure _
        | plain t f d i => exact (RaisesBare.pure _).bind fun _ => hadd name required _ _ _ _
        | entity p d | entities p d =>
            refine (hr p).bind fun target => (raisesBare_modifyRegistry _).bind fun _ => ?_
            exact (RaisesBare.pure _).bind fun _ => hadd name required _ _ _ _

theorem raisesBare_materialize (room ancestry : List String) (name : String) (schema : Value) :
    RaisesBare (materialize doc room ancestry name schema) := by
  induction room, ancestry, name, schema using materialize.induct with
  | case1 room ancestry name schema hname ih =>
      rw [materialize, dif_pos hname]
      refine (RaisesBare.of_succeeds (succeeds_register name)).bind fun _ =>
        (RaisesBare.of_succeeds Succeeds.get).bind fun b => ?_
      split
      · exact .pure _
      · refine (RaisesBare.forIn _ _ fun c hc _ => ?_).bind fun _ =>
          .of_succeeds (Succeeds.modify _)
        refine (raisesBare_extend doc (fun p => ?_) name fun fault heq => ?_).bind fun _ => .pure _
        · refine (RaisesBare.lift (doc.bare_resolve p)).bind fun found => ?_
          exact (ih found.1 found.2).bind fun _ => .pure _
        · exact Schema.bareFailures_closure doc schema fault (heq ▸ hc)
  | case2 room ancestry name schema hname =>
      rw [materialize, dif_neg hname]
      exact raisesBare_note _ _ _

theorem raisesBare_ofPointer (pointer : Value) (ancestry : List String) :
    RaisesBare (ofPointer doc pointer ancestry) :=
  (RaisesBare.lift (doc.bare_resolve pointer)).bind fun _ =>
    (raisesBare_materialize doc _ _ _ _).bind fun _ => .pure _

end Building

namespace Parameter

variable (doc : Document) (r : Registry) (kind : ClassKind) (className : String)

theorem bare_ofNode (location : ParameterLocation) (node : Value) :
    Bare (ofNode doc r kind className location node) := by
  refine (doc.bare_settle node).bind fun settled => ?_
  split
  · exact .ok _
  · exact (doc.bare_settle _).bind fun schema => (Fields.unfailing_fill _ _ _).bare.map _

theorem bare_located (location : ParameterLocation) (o : Operation) :
    Bare (located doc r kind className location o) :=
  (OnlyRaises.mapM fun node => bare_ofNode doc r kind className location node).map _

theorem bare_inPath (o : Operation) : Bare (inPath doc r kind className o) :=
  (bare_located doc r kind className .path o).map _

theorem bare_inQuery (o : Operation) : Bare (inQuery doc r kind className o) :=
  (bare_located doc r kind className .query o).map _

theorem bare_requestMedia? (o : Operation) : Bare (requestMedia? o) := by
  unfold requestMedia?
  split
  · exact .ok _
  · split
    · exact .error (Fault.isBare_ofValue _ _)
    · split <;> exact .ok _

theorem bare_contentType (o : Operation) : Bare (contentType o) := (bare_requestMedia? o).map _

theorem bare_fieldNames (properties required : Value) : Bare (fieldNames properties required) :=
  (Value.unfailing_membersOrNone _).bare.bind fun _ =>
    (OnlyRaises.filterM fun _ => (Value.unfailing_contains _ _).bare).bind fun _ =>
      (Value.unfailing_members _).bare.bind fun _ => .ok _

theorem raisesBare_itemsOf (items : Value) : RaisesBare (itemsOf doc items) := by
  unfold itemsOf
  split
  · refine (RaisesBare.lift (Schema.bare_scalarTarget? doc _)).bind fun target => ?_
    cases target with
    | some node => exact .pure _
    | none => exact (Building.raisesBare_ofPointer doc _ _).bind fun _ => .pure _
  · exact .pure _

theorem raisesBare_ofField (name : String) (schema : Value) (required : Bool) :
    RaisesBare (ofField doc name schema required) := by
  unfold ofField
  dsimp only
  split
  · exact .pure _
  · split
    · refine (RaisesBare.lift (Schema.bare_scalarTarget? doc _)).bind fun target => ?_
      cases target with
      | some node => exact .pure _
      | none => exact (Building.raisesBare_ofPointer doc _ _).bind fun _ => .pure _
    · split
      · exact (raisesBare_itemsOf doc _).bind fun _ => .pure _
      · exact .pure _

theorem raisesBare_inBody (o : Operation) : RaisesBare (inBody doc o) := by
  unfold inBody
  refine (RaisesBare.lift (bare_requestMedia? o)).bind fun media => ?_
  cases media with
  | none => exact .pure _
  | some media =>
      refine (RaisesBare.lift (doc.bare_settle _)).bind fun settled => ?_
      split
      · exact .pure _
      · refine (RaisesBare.lift (bare_fieldNames _ _)).bind fun names => ?_
        refine (RaisesBare.mapM _ fun name => ?_).bind fun fields => .pure _
        refine (RaisesBare.lift (Value.unfailing_index _ _).bare).bind fun schema => ?_
        split
        · exact raisesBare_ofField doc _ _ _
        · exact .throw (Fault.isBare_refused _)

theorem raisesBare_ofMethod (o : Operation) : RaisesBare (ofMethod doc kind className o) :=
  Building.raisesBare_registry.bind fun r =>
    (RaisesBare.lift (bare_inPath doc r kind className o)).bind fun _ =>
      (RaisesBare.lift (bare_inQuery doc r kind className o)).bind fun _ =>
        (raisesBare_inBody doc o).bind fun _ => .pure _

end Parameter

namespace Parameters

variable (doc : Document)

theorem bare_identity (node : Value) : Bare (identity doc node) := by
  refine (doc.bare_settle node).bind fun settled => ?_
  refine (Value.unfailing_fieldOr _ _ _).bare.bind fun name =>
    (Value.unfailing_fieldOr _ _ _).bare.bind fun place => ?_
  dsimp only
  split
  · exact .ok _
  · exact (unfailing_refused _).bare

theorem bare_merge (ofPath ofOperation : Value) : Bare (merge doc ofPath ofOperation) :=
  (Value.unfailing_membersOrNone _).bare.bind fun _ =>
    (OnlyRaises.mapM fun node => bare_identity doc node).bind fun _ =>
      (Value.unfailing_membersOrNone _).bare.bind fun _ =>
        (OnlyRaises.filterM fun node => (bare_identity doc node).bind fun _ => .ok _).bind
          fun _ => .ok _

end Parameters

section Operations

variable (doc : Document)

theorem Response.raisesBare_ofNode (label status : String) (node : Value) :
    RaisesBare (ofNode doc label status node) := by
  refine (RaisesBare.lift (doc.bare_settle node)).bind fun settled => ?_
  split
  · dsimp only
    split
    · exact .pure _
    · split
      · exact (Building.raisesBare_ofPointer doc _ _).bind fun _ => .pure _
      · exact (Building.raisesBare_note _ _ _).bind fun _ => .pure _
  · exact (Building.raisesBare_note _ _ _).bind fun _ => .pure _

theorem Response.raisesBare_ofNode? (label : String) (found : Option (String × Value)) :
    RaisesBare (ofNode? doc label found) := by
  cases found with
  | none => exact .pure _
  | some q => exact (raisesBare_ofNode doc label q.1 q.2).map some

theorem Operation.raisesBare_analyze (o : Operation) : RaisesBare (o.analyze doc) := by
  rw [analyze_eq]
  exact (Response.raisesBare_ofNode? doc _ _).bind fun _ =>
    (Response.raisesBare_ofNode? doc _ _).bind fun _ => .pure _

end Operations

namespace Classification

theorem raisesBare_building {α : Type} {m : Building α} (hm : RaisesBare m) :
    RaisesBare (building m) := fun c => hm c.build

/-- A placement is refused, or succeeds as a lenient one does. -/
theorem raisesBare_placeOn (strict : Bool) (p : PlacedOperation) (t : ClassKind × String) :
    RaisesBare (placeOn strict p t) := by
  have hlenient : RaisesBare (placeOn false p t) := .of_succeeds (succeeds_placeOn p t)
  cases strict with
  | false => exact hlenient
  | true =>
      intro c
      cases htaken : c.isTaken t.1 t.2 p.operation with
      | false =>
          rw [outcome_placeOn_of_free htaken]
          exact hlenient c
      | true =>
          rw [outcome_placeOn_of_taken htaken]
          exact .error (Fault.isBare_of _)

theorem raisesBare_addOperation (doc : Document) (strict : Bool) (position : Nat) (o : Operation) :
    RaisesBare (addOperation doc strict position o) := by
  rw [addOperation_eq_look]
  refine RaisesBare.bind ?_ fun rs => ?_
  · refine (raisesBare_building (o.raisesBare_analyze doc)).bind fun rs => ?_
    refine (RaisesBare.of_succeeds (Succeeds.modify _)).bind fun _ => ?_
    dsimp only
    split
    · exact (raisesBare_building (Building.raisesBare_note _ _ _)).bind fun _ => .pure _
    · exact .pure _
  · refine (RaisesBare.forIn _ _ fun t _ _ => ?_).bind fun _ => .pure _
    exact (raisesBare_placeOn strict _ t).bind fun _ => .pure _

end Classification

end OpenApiClient
