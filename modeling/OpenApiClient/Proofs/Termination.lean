import OpenApiClient.Proofs.Agenda
import OpenApiClient.Proofs.MirroredMaking

/-!
# Making entities ends

The machine that makes entities has its guards and no bounds.  It ends nevertheless, wherever it
starts, and it ends as the bounded walk does.  The walk supplies what the guards lack: the room of
a chain of names is what the names above leave of the names of the document, the pointers that a
chain of members has not followed yet are those of the document without the ones it has followed,
and a member is smaller than the node it belongs to.  None of the three decreases with every step;
so the machine is not measured, but run along the walk, whose recursion has them all.

`Performs` says that a machine does what a walk does and then goes on with what waits below.  It is
read off the parts of a walk.
-/

namespace OpenApiClient

open Walk

open StateTransition (Reaches)

namespace Document

/-- The loop along a chain of references ends where the bounded chase does, if the pointers that it
has seen are those that the chase may not follow any more. -/
theorem reaches_chase {doc : Document} {unused seen : List String} {node : Value}
    (h : ∀ p, p ∈ Schema.followed node ∨ p ∈ doc.pointers → (p ∈ unused ↔ p ∉ seen)) :
    Reaches doc.hop (.along seen node) (.ended (doc.chase unused node)) := by
  have hseen (p : String) (hr : node.reference? = some (.str p)) : p ∈ unused ↔ p ∉ seen :=
    h p (.inl (Schema.mem_followed.2 hr))
  fun_induction chase doc unused node generalizing seen with
  | case1 unused node hr => exact .single (by simp [hop, hr])
  | case2 unused node p hr hp fault hres =>
      exact .single (by simp [hop, hr, (hseen p hr).1 hp, hres])
  | case3 unused node p hr hp name target hres ih =>
      have hstep : .along (seen ++ [p]) target ∈ doc.hop (.along seen node) := by
        simp [hop, hr, (hseen p hr).1 hp, hres]
      -- From now on the chain stays inside the document.
      have hrest (q : String) (hq : q ∈ doc.pointers) :
          q ∈ without p unused ↔ q ∉ seen ++ [p] := by
        rw [mem_without, h q (.inr hq), List.mem_append, List.mem_singleton]
        tauto
      have hfollowed (q : String) (hq : target.reference? = some (.str q)) : q ∈ doc.pointers :=
        pointers_subset_of_resolve hres (Value.mem_pointers_of_reference? hq)
      refine .head hstep (ih (fun q hq => hrest q ?_) fun q hq => hrest q (hfollowed q hq))
      exact hq.elim (fun hq => hfollowed q (Schema.mem_followed.1 hq)) id
  | case4 unused node p hr hp =>
      have hmem : p ∈ seen := by
        by_contra hnew
        exact hp ((hseen p hr).2 hnew)
      exact .single (by simp [hop, hr, hmem])
  | case5 unused node v hne hr hkey => exact .single (by simp [hop, hr, hkey])
  | case6 unused node v hne hr hkey => exact .single (by simp [hop, hr, hkey])

theorem reaches_settle (doc : Document) (node : Value) :
    Reaches doc.hop (.along [] node) (.ended (doc.settle node)) := by
  unfold settle
  split
  · next hr => exact .single (by simp [hop, hr])
  · next p hr =>
      refine reaches_chase fun q hq => ?_
      rw [Schema.followed_eq_of_mem (Schema.mem_followed.2 hr), List.mem_singleton] at hq
      simpa using hq
  · next v hne hr =>
      refine reaches_chase fun q hq => ?_
      have hnone : q ∉ Schema.followed node := fun hf =>
        hne q (Option.some.inj (hr.symm.trans (Schema.mem_followed.1 hf)))
      simpa using hq.resolve_left hnone

end Document

namespace Building

variable {doc : Document}

/-- A walk is over; `agenda` waits below it. -/
def Machine.below (agenda : List Task) : Except Fault Unit × Build → Machine
  | (.ok (), b) => .running agenda b
  | (.error fault, b) => .ended (.error fault) b

/-- Giving tasks as `w` does and doing them is what the walk `m` does. -/
def Performs (doc : Document) (w : Building (List Task)) (m : Building Unit) : Prop :=
  ∀ agenda b, Reaches (Machine.next doc) (Machine.after agenda (outcome w b))
    (Machine.below agenda (outcome m b))

namespace Performs

variable {α : Type} {m m' : Building Unit} {t : Task} {tasks tasks' : List Task}

theorem nothing : Performs doc (pure []) (pure ()) := fun _ _ => .refl

theorem throw (fault : Fault) : Performs doc (MonadExcept.throw fault) (MonadExcept.throw fault) :=
  fun _ _ => .refl

/-- What leaves no tasks has been done. -/
theorem done (m : Building Unit) : Performs doc (do m; return []) m := by
  intro agenda b
  rw [outcome_bind]
  rcases outcome m b with ⟨fault | u, b'⟩ <;> exact .refl

theorem bind {x : Building α} {w : α → Building (List Task)} {f : α → Building Unit}
    (h : ∀ a b b', Yields x b a b' → Performs doc (w a) (f a)) :
    Performs doc (x >>= w) (x >>= f) := by
  intro agenda b
  rw [outcome_bind, outcome_bind]
  rcases ho : outcome x b with ⟨fault | a, b'⟩
  · exact .refl
  · exact h a b b' ho agenda b'

/-- A task on top of the agenda is advanced in one step. -/
theorem task (h : Performs doc (advance doc t) m) : Performs doc (pure [t]) m :=
  fun agenda b => .head rfl (h agenda b)

/-- Tasks on top of others are done before them. -/
theorem append (h : Performs doc (pure tasks) m) (h' : Performs doc (pure tasks') m') :
    Performs doc (pure (tasks ++ tasks')) (m >>= fun _ => m') := by
  intro agenda b
  have hfirst := h (tasks' ++ agenda) b
  have hsame : Machine.after agenda (outcome (pure (tasks ++ tasks')) b) =
      Machine.after (tasks' ++ agenda) (outcome (pure tasks) b) :=
    congrArg (Machine.running · b) (List.append_assoc tasks tasks' agenda)
  rw [hsame, outcome_bind]
  rcases ho : outcome m b with ⟨fault | u, b'⟩ <;> rw [ho] at hfirst
  · exact hfirst
  · exact hfirst.trans (h' agenda b')

theorem map {task : α → Task} {f : α → Building Unit} (l : List α)
    (h : ∀ a ∈ l, Performs doc (advance doc (task a)) (f a)) :
    Performs doc (pure (l.map task)) (forM l f) := by
  induction l with
  | nil => exact nothing
  | cons a l ih =>
      rw [List.forM_cons]
      exact (Performs.task (h a List.mem_cons_self)).append
        (ih fun a' ha' => h a' (List.mem_cons_of_mem a ha'))

/-- Tasks for the members of a list may do several things each. -/
theorem flatMap {γ : Type} {task : α → Task} {g : α → List γ} {f : γ → Building Unit}
    (l : List α) (h : ∀ a ∈ l, Performs doc (advance doc (task a)) (forM (g a) f)) :
    Performs doc (pure (l.map task)) (forM (l.flatMap g) f) := by
  induction l with
  | nil => exact nothing
  | cons a l ih =>
      rw [List.flatMap_cons, List.forM_append]
      exact (Performs.task (h a List.mem_cons_self)).append
        (ih fun a' ha' => h a' (List.mem_cons_of_mem a ha'))

end Performs

/-- A loop over a list is its steps one after the other. -/
theorem for_eq_forM {α : Type} (l : List α) (f : α → Building Unit) :
    (forIn l PUnit.unit fun a _ => do f a; pure (.yield PUnit.unit)) = forM l f := by
  induction l with
  | nil => rfl
  | cons a l ih => rw [List.forIn_cons, List.forM_cons, bind_assoc, ← ih]; rfl

/-- To extend an entity is to make the entity that the contribution refers to, and then to extend
it as if that one were at hand. -/
theorem extend_eq (refer : Value → Building String) (doc : Document) (entity : String)
    (c : Schema.Contribution) :
    extend refer doc entity c = match c.pointer? doc with
      | none => extend (fun _ => pure entity) doc entity c
      | some pointer =>
        refer pointer >>= fun target => extend (fun _ => pure target) doc entity c := by
  cases c with
  | failure fault => rfl
  | cycle p => rfl
  | property name schema required =>
      unfold extend Schema.Contribution.pointer? Schema.Contribution.typing?
      dsimp only
      by_cases hm : schema.isMap = true
      · cases ht : Schema.Typing.ofSchema doc schema with
        | error fault =>
            simp only [hm, if_true, Except.toOption]
            rfl
        | ok typing =>
            simp only [hm, if_true, Except.toOption]
            cases typing <;> rfl
      · simp [hm]

/-- The room of a chain of names holds what the names above it leave: of every name that may be met,
as many as it lacks above. -/
def Spares (doc : Document) (room ancestry : List String) (name : String) (schema : Value) : Prop :=
  ∀ n, (n = name ∨ ∃ s ∈ doc.reach schema, entityName? s = some n) →
    room.count n = expansions - ancestry.count n

namespace Spares

variable {room ancestry : List String} {name : String} {schema : Value}

theorem start (doc : Document) (ancestry : List String) (name : String) (schema : Value) :
    Spares doc (ancestry.foldl List.erase (roomFor doc name schema)) ancestry name schema := by
  intro n hn
  rw [← List.diff_eq_foldl, List.count_diff, count_roomFor hn]

/-- There is room for a name exactly if the guard lets it pass. -/
theorem mem_iff (h : Spares doc room ancestry name schema) :
    name ∈ room ↔ ancestry.count name < expansions := by
  rw [← List.count_pos_iff, h name (.inl rfl)]
  omega

/-- What is left for an entity that the schema refers to, below its own name. -/
theorem enter (h : Spares doc room ancestry name schema) {p segment : String} {target : Value}
    (hp : p ∈ doc.reach schema) (hres : doc.resolve (.str p) = .ok (segment, target)) :
    Spares doc (room.erase name) (ancestry ++ [name]) (Text.capitalizeFirst segment) target := by
  intro n hn
  have hmet : n = name ∨ ∃ s ∈ doc.reach schema, entityName? s = some n := by
    refine .inr ?_
    rcases hn with rfl | ⟨s, hs, hname⟩
    · obtain ⟨s, hs, hname⟩ := Document.entityName?_of_resolve hres
      obtain rfl := Scalar.str.inj (Value.scalar.inj hs)
      exact ⟨p, hp, hname⟩
    · refine ⟨s, List.mem_append_right _ ?_, hname⟩
      exact (List.mem_append.1 hs).elim
        (fun hs => Document.pointers_subset_of_resolve hres hs) id
  rw [List.count_erase, h n hmet, List.count_append, List.count_singleton]
  omega

end Spares

/-- What a schema refers to it refers to by a pointer that the walk may meet. -/
theorem mem_reach_of_pointer? {schema pointer target : Value} {c : Schema.Contribution}
    {segment : String} (hc : c ∈ Schema.closure doc schema) (hp : c.pointer? doc = some pointer)
    (hres : doc.resolve pointer = .ok (segment, target)) :
    ∃ p, pointer = .str p ∧ p ∈ doc.reach schema := by
  obtain ⟨p, rfl, -⟩ := Document.entityName?_of_resolve hres
  refine ⟨p, rfl, ?_⟩
  cases c with
  | failure fault => cases hp
  | cycle q => cases hp
  | property name sub required =>
      have hrefers := Schema.Contribution.pointer?_property.1 hp
      obtain ⟨ps, part, hcomposed, hown⟩ := Schema.declares_of_mem_contributions hc
      exact hcomposed.subset_reach.2
        (Schema.pointers_subset_of_ownProperties hown (Schema.mem_pointers_of_refers hrefers))

/-- An entity is extended by tasks as by the walk, if the entities that it refers to are made by
tasks as by walks. -/
theorem performs_extend {room ancestry : List String} {name : String} {c : Schema.Contribution}
    (h : ∀ pointer segment target, c.pointer? doc = some pointer →
      doc.resolve pointer = .ok (segment, target) →
      Performs doc
        (advance doc (.make (ancestry ++ [name]) (Text.capitalizeFirst segment) target))
        (materialize doc (room.erase name) (ancestry ++ [name]) (Text.capitalizeFirst segment)
          target)) :
    Performs doc (advance doc (.extend (ancestry ++ [name]) name c))
      (extend (follow doc room ancestry name) doc name c) := by
  rw [extend_eq]
  unfold advance
  dsimp only
  cases hp : c.pointer? doc with
  | none => exact .done _
  | some pointer =>
      unfold follow
      simp only [bind_assoc, pure_bind]
      refine .bind fun found b b' hfound => ?_
      obtain ⟨segment, target⟩ := found
      exact (Performs.task (h pointer segment target hp (yields_lift.1 hfound).1)).append
        (.task (.done _))

section Members

variable {ancestry : List String} {entity : String} {refer : Value → Building String}
  {node : Value} {chain unused : List String}

/-- A member is walked through by tasks as by the bounded walk, which lists what it contributes.
The induction is on the recursion of that list; what the chain has followed and what the walk may
still follow stay complements of each other. -/
theorem performs_merge (hleaves : Schema.Leaves doc chain unused node)
    (hextend : ∀ c ∈ Schema.contributions doc unused node,
      Performs doc (advance doc (.extend ancestry entity c)) (extend refer doc entity c)) :
    Performs doc (advance doc (.merge ancestry entity chain node))
      (forM (Schema.contributions doc unused node) (extend refer doc entity)) := by
  have hreach {node : Value} {p : String} (hr : node.reference? = some (.str p)) :
      p ∈ doc.reach node :=
    List.mem_append_left _ (Value.mem_pointers_of_reference? hr)
  refine Schema.contributions_induction doc
    (fun unused node cs => ∀ chain, Schema.Leaves doc chain unused node →
      (∀ c ∈ cs, Performs doc (advance doc (.extend ancestry entity c))
        (extend refer doc entity c)) →
      Performs doc (advance doc (.merge ancestry entity chain node))
        (forM cs (extend refer doc entity)))
    (fun unused target cs => ∀ chain,
      (∀ ms, Schema.members target = .ok ms → ∀ m ∈ ms, Schema.Leaves doc chain unused m) →
      (∀ c ∈ cs, Performs doc (advance doc (.extend ancestry entity c))
        (extend refer doc entity c)) →
      Performs doc (liftM (parts ancestry entity chain target))
        (forM cs (extend refer doc entity)))
    ?noReference ?fault ?followed ?cycle ?notText ?noMembers ?parts ?noMap
    unused node chain hleaves hextend
  case noReference =>
    intro unused node hr ih chain hleaves hextend
    have hs : doc.settle node = .ok node :=
      Document.settle_of_not_reference (by simp [Value.isReference, hr])
    have hf : Schema.followed node = [] := by simp [Schema.followed, hr]
    simp only [advance, hr]
    refine ih chain (fun ms hms m hm => ?_) hextend
    have hrest : ∀ p, p ∈ unused ↔ p ∈ unused ∧ p ∉ Schema.followed node := by simp [hf]
    have henter := hleaves.enter hs hrest hms hm
    rwa [hf, List.append_nil] at henter
  case fault =>
    intro unused node p fault hr hp hs chain hleaves hextend
    have hnew : p ∉ chain := (hleaves p (hreach hr)).1 hp
    simp only [advance, hr, if_neg hnew, hs]
    exact .throw fault
  case followed =>
    intro unused node p target hr hp hs ih chain hleaves hextend
    have hnew : p ∉ chain := (hleaves p (hreach hr)).1 hp
    have hf : Schema.followed node = [p] :=
      Schema.followed_eq_of_mem (Schema.mem_followed.2 hr)
    simp only [advance, hr, if_neg hnew, hs]
    refine ih (chain ++ [p]) (fun ms hms m hm => ?_) hextend
    exact hf ▸ hleaves.enter hs (by simp [hf]) hms hm
  case cycle =>
    intro unused node p hr hp chain hleaves hextend
    have hold : p ∈ chain := by
      by_contra hnew
      exact hp ((hleaves p (hreach hr)).2 hnew)
    simp only [advance, hr, if_pos hold]
    exact .done _
  case notText =>
    intro unused node pointer hr hne chain _ _
    simp only [advance, hr]
    unfold Schema.pointerFault
    split <;> exact .throw _
  case noMembers =>
    intro unused node fault hm hms chain hleaves hextend
    unfold parts
    rw [if_pos hm, hms]
    exact .throw fault
  case parts =>
    intro unused node ms hm hms ih chain hleaves hextend
    rw [List.forM_append]
    unfold parts
    rw [if_pos hm, hms]
    refine (Performs.flatMap ms fun m hmem => ?_).append (.map _ fun c hc => ?_)
    · refine ih m hmem chain (hleaves ms hms m hmem) fun c hc => hextend c ?_
      exact List.mem_append_left _ (List.mem_flatMap.2 ⟨m, hmem, hc⟩)
    · exact hextend c (List.mem_append_right _ hc)
  case noMap =>
    intro unused node hm chain hleaves hextend
    unfold parts
    rw [if_neg hm]
    exact .nothing

end Members

/-- An entity is made by tasks as by the walk, if its room is what the names above leave.  Below its
own name there is less room. -/
theorem performs_make {room ancestry : List String} {name : String} {schema : Value}
    (h : Spares doc room ancestry name schema) :
    Performs doc (advance doc (.make ancestry name schema))
      (materialize doc room ancestry name schema) := by
  induction room, ancestry, name, schema using room_induction with
  | step room ancestry name schema ih =>
      unfold advance
      dsimp only
      by_cases hname : name ∈ room
      · rw [materialize, dif_pos hname, if_neg (Nat.not_le_of_lt (h.mem_iff.1 hname))]
        refine .bind fun _ _ _ _ => .bind fun b _ _ _ => ?_
        split
        · exact .nothing
        · rw [for_eq_forM]
          refine (Performs.task (performs_merge ?_ fun c hc => ?_)).append (.task (.done _))
          · exact fun p hp => by simp [hp]
          · refine performs_extend fun pointer segment target hpointer hres => ?_
            obtain ⟨p, rfl, hp⟩ := mem_reach_of_pointer? hc hpointer hres
            exact ih hname _ target (h.enter hp hres)
      · rw [materialize, dif_neg hname,
          if_pos (Nat.le_of_not_lt fun hcount => hname (h.mem_iff.2 hcount))]
        exact .done _

/-- Making entities ends.

The machine that makes an entity with its two guards alone comes to an end, whatever the document,
however its pointers lead back to each other, and whatever the state and the names above.  It ends
as `ofSchema` does, and with the same state, whether that is a success or a failure.

On the way, every task that it comes to is guarded: the names above the task are those that are
given and those whose expansions enclose it, a name is expanded only while it stands among them
less than twice, and no pointer has been followed twice on the chain of members to the task.

The chains of references that it follows to their ends on its way do have ends. -/
theorem ofSchema_terminates (doc : Document) (name : String) (schema : Value)
    (ancestry : List String) (b : Build) :
    let made := outcome (ofSchema doc name schema ancestry) b
    let start := Machine.running [.make ancestry name schema] b
    Machine.ended made.1 made.2 ∈ StateTransition.eval (Machine.next doc) start ∧
      (∀ done t rest b', Reaches (Machine.next doc) start (.running (done ++ t :: rest) b') →
        t.Guarded (ancestry ++ enclosing rest)) ∧
      ∀ node, .ended (doc.settle node) ∈ StateTransition.eval doc.hop (.along [] node) := by
  intro made start
  refine ⟨StateTransition.mem_eval.2 ⟨?ends, rfl⟩, fun done t rest b' hrun => ?guarded,
    fun node => StateTransition.mem_eval.2 ⟨doc.reaches_settle node, rfl⟩⟩
  case ends =>
    have hperforms := (performs_make (.start doc ancestry name schema)).task [] b
    change Reaches _ start (Machine.below [] made) at hperforms
    rcases made with ⟨fault | ⟨⟩, b'⟩
    · exact hperforms
    · exact hperforms.tail rfl
  case guarded =>
    have hstart : start.Guards ancestry := by
      refine ⟨?_, trivial⟩
      simpa [enclosing] using Task.guarded_make name schema
    exact (Guards.of_append (hstart.reaches hrun)).1

end Building

end OpenApiClient
