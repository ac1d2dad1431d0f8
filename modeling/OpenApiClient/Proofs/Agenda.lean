import OpenApiClient.Proofs.Declaration
import Mathlib.Computability.StateTransition

/-!
# Making entities with the guards alone

The walk that makes entities is bounded from outside: by the room of a chain of names, and by the
pointers that a chain of members has not followed yet.  Here it is taken apart into tasks that know
nothing of these bounds.  A task does one piece of work and leaves an agenda of further tasks, and
there are two guards: a name is not expanded when it stands twice among the names above it, and a
pointer is not followed when the chain of members has followed it.

The agenda is a stack.  An expansion leaves the task of using its schema up below everything that
it has to do, so the expansions which enclose a task are those that wait below it.

Nothing in the machine says that it comes to an end.
-/

namespace OpenApiClient

open Walk

namespace Document

/-- The loop along a chain of references: it stands at a node and has seen some pointers, or it
has ended. -/
inductive Chain where
  | along (seen : List String) (node : Value)
  | ended (result : Except Fault Value)

/-- One round of the loop along a chain of references. -/
def hop (doc : Document) : Chain → Option Chain
  | .ended _ => none
  | .along seen node => some <|
    match node.reference? with
    | none => .ended (.ok node)
    | some (.scalar (.str p)) =>
      if p ∈ seen then .ended (.ok node)
      else match doc.resolve (.str p) with
        | .error fault => .ended (.error fault)
        | .ok (_, target) => .along (seen ++ [p]) target
    | some v =>
      if v.isKey then .ended (.error (.ofValue .unsupportedReference v))
      else .ended (.error (.refused .notAKey))

end Document

namespace Building

/-- A piece of the work of making entities.  The names above it stand in `ancestry`. -/
inductive Task where
  /-- Make the entity of a name. -/
  | make (ancestry : List String) (name : String) (schema : Value)
  /-- Walk through a member of a composition; the chain of members that leads to it has followed
  the pointers of `chain`. -/
  | merge (ancestry : List String) (entity : String) (chain : List String) (node : Value)
  /-- Extend an entity by a contribution. -/
  | extend (ancestry : List String) (entity : String) (c : Schema.Contribution)
  /-- Extend an entity by a contribution that refers to another one, which has been made. -/
  | record (entity target : String) (c : Schema.Contribution)
  /-- Everything that a schema contributes has been used. -/
  | useUp (name : String) (schema : Value)

/-- What is to be done for a node at the end of a chain of references. -/
def parts (ancestry : List String) (entity : String) (chain : List String) (node : Value) :
    Except Fault (List Task) :=
  if node.isMap then
    (Schema.members node).map fun ms => ms.map (.merge ancestry entity chain) ++
      (Schema.ownProperties node).map (.extend ancestry entity)
  else .ok []

/-- Does what a task can do by itself, and gives what is left of it. -/
def advance (doc : Document) : Task → Building (List Task)
  | .make ancestry name schema => do
    if expansions ≤ ancestry.count name then
      note .debug "compiler.registry"
        ("Recursion guard stops " ++ name ++ " (chain: " ++ Text.join " > " ancestry ++ ")")
      return []
    register name
    if (← get).completed.contains (name, schema) then return []
    return [.merge (ancestry ++ [name]) name [] schema, .useUp name schema]
  | .merge ancestry entity chain node =>
    match node.reference? with
    | none => parts ancestry entity chain node
    | some (.scalar (.str p)) =>
      if p ∈ chain then do
        note .debug "compiler.registry" ("allOf cycle through " ++ p ++ " stops in " ++ entity)
        return []
      else do
        let target ← doc.settle node
        parts ancestry entity (chain ++ [p]) target
    | some pointer =>
      if pointer.isKey then throw (.ofValue .unsupportedReference pointer)
      else throw (.refused .notAKey)
  | .extend ancestry entity c =>
    match c.pointer? doc with
    -- No other entity is asked for.
    | none => do
      Building.extend (fun _ => pure entity) doc entity c
      return []
    | some pointer => do
      let (segment, target) ← doc.resolve pointer
      let other := Text.capitalizeFirst segment
      return [.make ancestry other target, .record entity other c]
  | .record entity target c => do
    Building.extend (fun _ => pure target) doc entity c
    return []
  | .useUp name schema => do
    modify fun b => { b with completed := (name, schema) :: b.completed }
    return []

/-- The machine has an agenda, or it has ended. -/
inductive Machine where
  | running (agenda : List Task) (b : Build)
  | ended (result : Except Fault Unit) (b : Build)

namespace Machine

/-- A task has done what it can by itself; `agenda` waits below it. -/
def after (agenda : List Task) : Except Fault (List Task) × Build → Machine
  | (.ok tasks, b) => .running (tasks ++ agenda) b
  | (.error fault, b) => .ended (.error fault) b

/-- One step of the machine: the task on top of the agenda is advanced. -/
def next (doc : Document) : Machine → Option Machine
  | .running [] b => some (.ended (.ok ()) b)
  | .running (t :: rest) b => some (after rest (outcome (advance doc t) b))
  | .ended _ _ => none

end Machine

namespace Task

/-- The names above a task, as it has been told. -/
def ancestry? : Task → Option (List String)
  | make ancestry _ _ => some ancestry
  | merge ancestry _ _ _ => some ancestry
  | extend ancestry _ _ => some ancestry
  | _ => none

/-- The name whose expansion waits for its end. -/
def expanded? : Task → Option String
  | useUp name _ => some name
  | _ => none

/-- The pointers that have been followed on the chain of members to a task. -/
def chain : Task → List String
  | merge _ _ chain _ => chain
  | _ => []

/-- A task below the names `above` has been told of them, is no expansion of a name that stands
twice among them, and has no pointer twice on its chain of members. -/
structure Guarded (above : List String) (t : Task) : Prop where
  ancestry : ∀ ancestry, t.ancestry? = some ancestry → ancestry = above
  expanded : ∀ name, t.expanded? = some name → above.count name < expansions
  chain : t.chain.Nodup

end Task

/-- The names whose expansions wait on an agenda, the outermost one first. -/
def enclosing (agenda : List Task) : List String := (agenda.filterMap Task.expanded?).reverse

/-- Every task is guarded, below the names that are given and those whose expansions enclose
it. -/
def Guards (given : List String) : List Task → Prop
  | [] => True
  | t :: rest => t.Guarded (given ++ enclosing rest) ∧ Guards given rest

section Steps

variable {doc : Document} {b b' : Build} {tasks : List Task}

/-- An entity that is made is expanded only if its name does not stand twice above. -/
theorem yields_advance_make {ancestry : List String} {name : String} {schema : Value}
    (h : Yields (advance doc (.make ancestry name schema)) b tasks b') :
    tasks = [] ∨ ancestry.count name < expansions ∧
      tasks = [.merge (ancestry ++ [name]) name [] schema, .useUp name schema] := by
  unfold advance at h
  dsimp only at h
  split at h
  · obtain ⟨_, _, -, h₁⟩ := yields_bind.1 h
    exact .inl (yields_pure.1 h₁).1
  · next hcount =>
      obtain ⟨_, _, -, h₁⟩ := yields_bind.1 h
      obtain ⟨_, _, -, h₂⟩ := yields_bind.1 h₁
      split at h₂
      · exact .inl (yields_pure.1 h₂).1
      · exact .inr ⟨Nat.lt_of_not_le hcount, (yields_pure.1 h₂).1⟩

/-- A member leaves its parts, below a pointer that has not been followed if it is a reference. -/
theorem yields_advance_merge {ancestry chain : List String} {entity : String} {node : Value}
    (h : Yields (advance doc (.merge ancestry entity chain node)) b tasks b') :
    tasks = [] ∨ ∃ followed target, (∀ p ∈ followed, p ∉ chain) ∧ followed.Nodup ∧
      parts ancestry entity (chain ++ followed) target = .ok tasks := by
  unfold advance at h
  dsimp only at h
  split at h
  · refine .inr ⟨[], node, fun p hp => absurd hp List.not_mem_nil, List.nodup_nil, ?_⟩
    rw [List.append_nil]
    exact (yields_lift.1 h).1
  · next p _ =>
      split at h
      · obtain ⟨_, _, -, h₁⟩ := yields_bind.1 h
        exact .inl (yields_pure.1 h₁).1
      · next hp =>
          obtain ⟨target, _, -, h₁⟩ := yields_bind.1 h
          refine .inr ⟨[p], target, fun q hq => ?_, List.nodup_singleton p, (yields_lift.1 h₁).1⟩
          rwa [List.mem_singleton.1 hq]
  · split at h <;> exact absurd h not_yields_throw

/-- A contribution leaves the entity that it refers to, if there is one. -/
theorem yields_advance_extend {ancestry : List String} {entity : String}
    {c : Schema.Contribution}
    (h : Yields (advance doc (.extend ancestry entity c)) b tasks b') :
    tasks = [] ∨ ∃ other target, tasks = [.make ancestry other target, .record entity other c] := by
  unfold advance at h
  dsimp only at h
  split at h
  · obtain ⟨_, _, -, h₁⟩ := yields_bind.1 h
    exact .inl (yields_pure.1 h₁).1
  · obtain ⟨⟨segment, target⟩, _, -, h₁⟩ := yields_bind.1 h
    exact .inr ⟨_, target, (yields_pure.1 h₁).1⟩

/-- The other tasks leave nothing. -/
theorem yields_advance_record {entity target : String} {c : Schema.Contribution}
    (h : Yields (advance doc (.record entity target c)) b tasks b') : tasks = [] := by
  obtain ⟨_, _, -, h₁⟩ := yields_bind.1 h
  exact (yields_pure.1 h₁).1

theorem yields_advance_useUp {name : String} {schema : Value}
    (h : Yields (advance doc (.useUp name schema)) b tasks b') : tasks = [] := by
  obtain ⟨_, _, -, h₁⟩ := yields_bind.1 h
  exact (yields_pure.1 h₁).1

end Steps

section Guards

variable {given above : List String} {rest tasks : List Task}

@[simp] theorem guards_cons {t : Task} : Guards given (t :: rest) ↔
    t.Guarded (given ++ enclosing rest) ∧ Guards given rest := Iff.rfl

theorem Guards.of_append {done : List Task} (h : Guards given (done ++ rest)) :
    Guards given rest := by
  induction done with
  | nil => exact h
  | cons t done ih => exact ih h.2

@[simp] theorem enclosing_useUp (name : String) (schema : Value) (rest : List Task) :
    enclosing (.useUp name schema :: rest) = enclosing rest ++ [name] := by
  simp [enclosing, Task.expanded?]

namespace Task

theorem guarded_make (name : String) (schema : Value) : (make above name schema).Guarded above :=
  ⟨fun _ h => (Option.some.inj h).symm, nofun, List.nodup_nil⟩

theorem guarded_merge (entity : String) {chain : List String} (node : Value) (h : chain.Nodup) :
    (merge above entity chain node).Guarded above :=
  ⟨fun _ h => (Option.some.inj h).symm, nofun, h⟩

theorem guarded_extend (entity : String) (c : Schema.Contribution) :
    (extend above entity c).Guarded above :=
  ⟨fun _ h => (Option.some.inj h).symm, nofun, List.nodup_nil⟩

theorem guarded_record (entity target : String) (c : Schema.Contribution) :
    (record entity target c).Guarded above :=
  ⟨nofun, nofun, List.nodup_nil⟩

theorem guarded_useUp {name : String} (schema : Value) (h : above.count name < expansions) :
    (useUp name schema).Guarded above := by
  refine ⟨nofun, fun n hn => ?_, List.nodup_nil⟩
  obtain rfl := Option.some.inj hn
  exact h

end Task

/-- Tasks that are no expansions are guarded by what waits below them. -/
theorem Guards.append (hrest : Guards given rest)
    (h : ∀ t ∈ tasks, t.expanded? = none ∧ t.Guarded (given ++ enclosing rest)) :
    Guards given (tasks ++ rest) := by
  induction tasks with
  | nil => exact hrest
  | cons t tasks ih =>
      have htasks := fun u hu => h u (List.mem_cons_of_mem t hu)
      have hnone : tasks.filterMap Task.expanded? = [] :=
        List.filterMap_eq_nil_iff.2 fun u hu => (htasks u hu).1
      have henclosing : enclosing (tasks ++ rest) = enclosing rest := by
        rw [enclosing, List.filterMap_append, hnone, List.nil_append, enclosing]
      rw [List.cons_append, guards_cons, henclosing]
      exact ⟨(h t List.mem_cons_self).2, ih htasks⟩

/-- The parts of a node are guarded like the node itself. -/
theorem guards_parts {entity : String} {chain : List String} {node : Value}
    (hrest : Guards given rest) (hchain : chain.Nodup)
    (h : parts (given ++ enclosing rest) entity chain node = .ok tasks) :
    Guards given (tasks ++ rest) := by
  refine hrest.append fun t ht => ?_
  unfold parts at h
  split at h
  · obtain ⟨ms, -, rfl⟩ := map_eq_ok.1 h
    rcases List.mem_append.1 ht with ht | ht
    · obtain ⟨m, -, rfl⟩ := List.mem_map.1 ht
      exact ⟨rfl, Task.guarded_merge entity m hchain⟩
    · obtain ⟨c, -, rfl⟩ := List.mem_map.1 ht
      exact ⟨rfl, Task.guarded_extend entity c⟩
  · obtain rfl := Except.ok.inj h
    cases ht

/-- What a guarded task leaves is guarded. -/
theorem Guards.advance {doc : Document} {t : Task} {b b' : Build}
    (h : Guards given (t :: rest)) (hstep : Yields (advance doc t) b tasks b') :
    Guards given (tasks ++ rest) := by
  obtain ⟨⟨hancestry, -, hchain⟩, hrest⟩ := h
  cases t with
  | make ancestry name schema =>
      obtain rfl := hancestry ancestry rfl
      obtain rfl | ⟨hcount, rfl⟩ := yields_advance_make hstep
      · exact hrest
      · have huseUp := Task.guarded_useUp schema hcount
        simp only [List.cons_append, List.nil_append, guards_cons, enclosing_useUp]
        rw [← List.append_assoc]
        exact ⟨Task.guarded_merge name schema List.nodup_nil, huseUp, hrest⟩
  | merge ancestry entity chain node =>
      obtain rfl := hancestry ancestry rfl
      obtain rfl | ⟨followed, target, hnew, hfollowed, hparts⟩ := yields_advance_merge hstep
      · exact hrest
      · refine guards_parts hrest (List.nodup_append.2 ⟨hchain, hfollowed, ?_⟩) hparts
        rintro p hp _ hq rfl
        exact hnew p hq hp
  | extend ancestry entity c =>
      obtain rfl := hancestry ancestry rfl
      obtain rfl | ⟨other, target, rfl⟩ := yields_advance_extend hstep
      · exact hrest
      · refine hrest.append fun t ht => ?_
        rcases List.mem_pair.1 ht with rfl | rfl
        · exact ⟨rfl, Task.guarded_make other target⟩
        · exact ⟨rfl, Task.guarded_record entity other c⟩
  | record entity target c =>
      obtain rfl := yields_advance_record hstep
      exact hrest
  | useUp name schema =>
      obtain rfl := yields_advance_useUp hstep
      exact hrest

/-- The guards hold for a machine: for its agenda, as long as it runs. -/
def Machine.Guards (given : List String) : Machine → Prop
  | .running agenda _ => Building.Guards given agenda
  | .ended _ _ => True

theorem Machine.Guards.next {doc : Document} {m m' : Machine} (h : m.Guards given)
    (hstep : m' ∈ m.next doc) : m'.Guards given := by
  match m, h with
  | .running [] b, _ =>
      obtain rfl := Option.some.inj hstep
      trivial
  | .running (t :: rest) b, h =>
      obtain rfl := Option.some.inj hstep
      rcases ho : outcome (Building.advance doc t) b with ⟨fault | tasks, b'⟩
      · trivial
      · exact Building.Guards.advance h ho
  | .ended _ _, _ => cases hstep

/-- The guards hold for everything that a machine comes to. -/
theorem Machine.Guards.reaches {doc : Document} {m m' : Machine} (h : m.Guards given)
    (hrun : StateTransition.Reaches (Machine.next doc) m m') : m'.Guards given := by
  induction hrun with
  | refl => exact h
  | tail _ hstep ih => exact ih.next hstep

end Guards

end Building

end OpenApiClient
