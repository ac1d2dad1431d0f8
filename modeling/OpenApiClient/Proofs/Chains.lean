import Mathlib.Data.List.Perm.Subperm
import Mathlib.Logic.Relation
import OpenApiClient.Proofs.Termination

/-!
# How chains of references end

`Refers` is one step along a chain of references: a node points at another one.  Nothing in it
remembers where the chain has been, so that a chain may go on for ever.  The loop along a chain
remembers the pointers that it has resolved, and there are three ways for it to end: at a node that
is no reference, at a reference whose pointer it has resolved before, or at a pointer that leads
nowhere.  Which of them it is depends on the chain alone, and a chain has no two of them, because
every node refers to one node at most.

The loop has no measure of its own.  Apart from the first one, all pointers that it resolves are
pointers of the document, and it resolves none of them twice: `length_le_of_run` counts them.
-/

namespace OpenApiClient.Document

open Relation (ReflTransGen TransGen)

open StateTransition (Reaches)

variable {doc : Document} {v w node target : Value} {p : String} {seen ps : List String}
  {fault : Fault} {result : Except Fault Value}

/-- Where a pointer leads.  What cannot be a key is not even looked up. -/
def lookUp (doc : Document) (pointer : Value) : Except Fault (String × Value) :=
  if pointer.isKey then doc.resolve pointer else .error (.refused .notAKey)

/-- A node is a reference to another one. -/
def Refers (doc : Document) (v w : Value) : Prop :=
  ∃ pointer name, v.reference? = some pointer ∧ doc.lookUp pointer = .ok (name, w)

/-- A node is a reference whose pointer does not resolve. -/
def Fails (doc : Document) (v : Value) (fault : Fault) : Prop :=
  ∃ pointer, v.reference? = some pointer ∧ doc.lookUp pointer = .error fault

/-- The chain that starts at a node comes to a node from which it leads back to that node. -/
def IsCyclic (doc : Document) (node : Value) : Prop :=
  ∃ v, ReflTransGen doc.Refers node v ∧ TransGen doc.Refers v v

theorem Refers.unique (hv : doc.Refers node v) (hw : doc.Refers node w) : v = w := by
  obtain ⟨pointer, name, hpointer, hresolve⟩ := hv
  obtain ⟨pointer', name', hpointer', hresolve'⟩ := hw
  obtain rfl := Option.some.inj (hpointer.symm.trans hpointer')
  exact congrArg Prod.snd (Except.ok.inj (hresolve.symm.trans hresolve'))

theorem Fails.unique {fault' : Fault} (h : doc.Fails node fault) (h' : doc.Fails node fault') :
    fault = fault' := by
  obtain ⟨pointer, hpointer, hresolve⟩ := h
  obtain ⟨pointer', hpointer', hresolve'⟩ := h'
  obtain rfl := Option.some.inj (hpointer.symm.trans hpointer')
  exact Except.error.inj (hresolve.symm.trans hresolve')

theorem isReference_of_reference? {pointer : Value} (h : node.reference? = some pointer) :
    node.isReference = true := by
  simp [Value.isReference, h]

theorem Fails.isReference (h : doc.Fails node fault) : node.isReference = true := by
  obtain ⟨pointer, hpointer, -⟩ := h
  exact isReference_of_reference? hpointer

theorem not_refers_of_not_isReference (h : node.isReference = false) : ¬ doc.Refers node w := by
  rintro ⟨pointer, -, hpointer, -⟩
  cases h.symm.trans (isReference_of_reference? hpointer)

theorem Fails.not_refers (h : doc.Fails node fault) : ¬ doc.Refers node w := by
  rintro ⟨pointer, name, hpointer, hresolve⟩
  obtain ⟨pointer', hpointer', hresolve'⟩ := h
  obtain rfl := Option.some.inj (hpointer.symm.trans hpointer')
  cases hresolve.symm.trans hresolve'

/-- A chain stops at one node only. -/
theorem eq_of_stops (hv : ReflTransGen doc.Refers node v) (hstop : ∀ x, ¬ doc.Refers v x)
    (hw : ReflTransGen doc.Refers node w) (hstop' : ∀ x, ¬ doc.Refers w x) : v = w := by
  have hunique : Relator.RightUnique doc.Refers := fun _ _ _ h h' => h.unique h'
  rcases ReflTransGen.total_of_right_unique hunique hv hw with h | h
  · rcases h.cases_head with rfl | ⟨x, hx, -⟩
    · rfl
    · exact absurd hx (hstop x)
  · rcases h.cases_head with rfl | ⟨x, hx, -⟩
    · rfl
    · exact absurd hx (hstop' x)

/-- A chain that stops does not lead back to any of its nodes. -/
theorem not_isCyclic_of_stops (h : ReflTransGen doc.Refers node v)
    (hstop : ∀ x, ¬ doc.Refers v x) : ¬ doc.IsCyclic node := by
  induction h using ReflTransGen.head_induction_on with
  | refl =>
      rintro ⟨x, hx, hcycle⟩
      obtain ⟨y, hy, -⟩ := TransGen.head'_iff.1 (TransGen.trans_right hx hcycle)
      exact hstop y hy
  | @head node next hstep _ ih =>
      rintro ⟨x, hx, hcycle⟩
      refine ih ?_
      rcases hx.cases_head with rfl | ⟨y, hy, hrest⟩
      · -- The cycle comes back to the start by way of the next node.
        obtain ⟨y, hy, hback⟩ := TransGen.head'_iff.1 hcycle
        obtain rfl := hstep.unique hy
        exact ⟨node, hback, hcycle⟩
      · obtain rfl := hstep.unique hy
        exact ⟨x, hrest, hcycle⟩

/-- The pointer that the loop resolves in its next round. -/
def Chain.pointer? : Chain → Option String
  | .ended _ => none
  | .along seen node =>
    match node.reference? with
    | some (.scalar (.str p)) => if p ∈ seen then none else some p
    | _ => none

/-- The loop ends with a result and resolves some pointers on its way. -/
inductive Run (doc : Document) : Chain → List String → Except Fault Value → Prop
  | ended (result : Except Fault Value) : Run doc (.ended result) [] result
  | hop {c c' : Chain} {ps : List String} {result : Except Fault Value} (h : c' ∈ doc.hop c)
      (hrest : Run doc c' ps result) : Run doc c (c.pointer?.toList ++ ps) result

theorem exists_run_of_reaches {c : Chain} (h : Reaches doc.hop c (.ended result)) :
    ∃ ps, doc.Run c ps result := by
  induction h using ReflTransGen.head_induction_on with
  | refl => exact ⟨[], .ended result⟩
  | head hstep _ ih =>
      obtain ⟨ps, hps⟩ := ih
      exact ⟨_, .hop hstep hps⟩

/-- The loop at a node is about to resolve a pointer. -/
def IsNew (seen : List String) (node : Value) (p : String) : Prop :=
  node.reference? = some (.str p) ∧ p ∉ seen

theorem pointer?_eq_some_iff : (Chain.along seen node).pointer? = some p ↔ IsNew seen node p := by
  unfold Chain.pointer? IsNew
  dsimp only
  split
  · next q hq =>
      rw [hq]
      by_cases hold : q ∈ seen
      · simp only [if_pos hold, reduceCtorEq, false_iff, not_and_not_right]
        rintro heq
        cases heq
        exact hold
      · simp only [if_neg hold, Option.some.injEq, Value.scalar.injEq, Scalar.str.injEq]
        exact ⟨fun heq => ⟨heq, heq ▸ hold⟩, And.left⟩
  · next hne => exact ⟨fun h => (Option.some_ne_none _ h.symm).elim, fun h => (hne p h.1).elim⟩

/-- What one round of the loop does: at the end of a chain it ends, and it goes on by resolving a
new pointer. -/
theorem hop_cases {c : Chain} (h : c ∈ doc.hop (.along seen node)) :
    (node.isReference = false ∧ c = .ended (.ok node)) ∨
      (∃ p ∈ seen, node.reference? = some (.str p) ∧ c = .ended (.ok node)) ∨
      (∃ fault, doc.Fails node fault ∧ c = .ended (.error fault)) ∨
      ∃ p name target, IsNew seen node p ∧ doc.resolve (.str p) = .ok (name, target) ∧
        c = .along (seen ++ [p]) target := by
  obtain rfl := Option.some.inj h
  cases hr : node.reference? with
  | none => exact .inl ⟨by simp [Value.isReference, hr], rfl⟩
  | some pointer =>
      by_cases htext : ∃ p, pointer = .str p
      · obtain ⟨p, rfl⟩ := htext
        dsimp only
        split
        · next hold => exact .inr (.inl ⟨p, hold, rfl, rfl⟩)
        · next hnew =>
            cases hresolve : doc.resolve (.str p) with
            | error fault => exact .inr (.inr (.inl ⟨fault, ⟨_, hr, hresolve⟩, rfl⟩))
            | ok found =>
                exact .inr (.inr (.inr ⟨p, found.1, found.2, ⟨hr, hnew⟩, hresolve, rfl⟩))
      · have hnot (q : String) : pointer ≠ .str q := fun heq => htext ⟨q, heq⟩
        refine .inr (.inr (.inl ?_))
        split
        · next heq => cases heq
        · next q heq => exact absurd (Option.some.inj heq) (hnot q)
        · next q _ heq =>
            obtain rfl := Option.some.inj heq
            split
            · next hkey =>
                refine ⟨_, ⟨pointer, hr, ?_⟩, rfl⟩
                rw [lookUp, if_pos hkey, resolve_of_not_text hnot]
            · next hkey => exact ⟨_, ⟨pointer, hr, if_neg hkey⟩, rfl⟩

/-- What a run of the loop comes to that has seen some pointers and stands at a node: `ps` are the
pointers which it resolves from there. -/
structure ComesTo (doc : Document) (seen : List String) (node : Value) (ps : List String)
    (result : Except Fault Value) : Prop where
  nodup : seen.Nodup → (seen ++ ps).Nodup
  within : ps ⊆ Schema.followed node ++ doc.pointers
  stops : ∃ v, ReflTransGen doc.Refers node v ∧
    ((v.isReference = false ∧ result = .ok v) ∨
      (∃ p, v.reference? = some (.str p) ∧ result = .ok v ∧ (p ∈ seen ∨ p ∈ ps ∧
        ∃ name w, doc.resolve (.str p) = .ok (name, w) ∧ ReflTransGen doc.Refers node w ∧
          ReflTransGen doc.Refers w v)) ∨
      ∃ fault, doc.Fails v fault ∧ result = .error fault)

theorem eq_of_run_ended {stopped : Except Fault Value} (h : doc.Run (.ended stopped) ps result) :
    ps = [] ∧ result = stopped := by
  cases h with
  | ended => exact ⟨rfl, rfl⟩
  | hop hhop => cases hhop

/-- The loop resolves a new pointer before it stops at a node, if it resolves one at all. -/
theorem ComesTo.of_stop
    (hstop : (node.isReference = false ∧ result = .ok node) ∨
      (∃ p ∈ seen, node.reference? = some (.str p) ∧ result = .ok node) ∨
      ∃ fault, doc.Fails node fault ∧ result = .error fault) :
    doc.ComesTo seen node ((Chain.along seen node).pointer?.toList ++ []) result where
  nodup hseen := by
    rw [List.append_nil]
    cases hp : (Chain.along seen node).pointer? with
    | none => simpa using hseen
    | some p => simpa using hseen.concat (pointer?_eq_some_iff.1 hp).2
  within p hp := by
    rw [List.append_nil] at hp
    have hp : IsNew seen node p := pointer?_eq_some_iff.1 (by simpa using hp)
    exact List.mem_append_left _ (Schema.mem_followed.2 hp.1)
  stops := by
    refine ⟨node, .refl, hstop.imp_right (Or.imp_left ?_)⟩
    rintro ⟨p, hp, hr, hresult⟩
    exact ⟨p, hr, hresult, .inl hp⟩

/-- Before the loop goes on at the next node, it has resolved the pointer to it. -/
theorem ComesTo.cons {name : String} (hp : IsNew seen node p)
    (hresolve : doc.resolve (.str p) = .ok (name, target))
    (h : doc.ComesTo (seen ++ [p]) target ps result) : doc.ComesTo seen node (p :: ps) result where
  nodup hseen := by
    have hnodup := h.nodup (by simpa using hseen.concat hp.2)
    rwa [List.append_assoc, List.singleton_append] at hnodup
  within := by
    refine List.cons_subset.2 ⟨List.mem_append_left _ (Schema.mem_followed.2 hp.1), fun q hq => ?_⟩
    refine List.mem_append_right _ ((List.mem_append.1 (h.within hq)).elim (fun hq => ?_) id)
    exact pointers_subset_of_resolve hresolve
      (Value.mem_pointers_of_reference? (Schema.mem_followed.1 hq))
  stops := by
    have hstep : doc.Refers node target := ⟨_, name, hp.1, hresolve⟩
    obtain ⟨v, hv, hend⟩ := h.stops
    refine ⟨v, .head hstep hv, hend.imp_right (Or.imp_left ?_)⟩
    rintro ⟨q, hr, hresult, hq⟩
    refine ⟨q, hr, hresult, ?_⟩
    rcases hq with hq | ⟨hq, next, w, hnext, hw, hback⟩
    · rcases List.mem_append.1 hq with hq | hq
      · exact .inl hq
      · -- The chain has come back to the pointer that it left this node by.
        obtain rfl := List.mem_singleton.1 hq
        exact .inr ⟨List.mem_cons_self, name, target, hresolve, .single hstep, hv⟩
    · exact .inr ⟨List.mem_cons_of_mem _ hq, next, w, hnext, .head hstep hw, hback⟩

theorem comesTo_of_run (h : doc.Run (.along seen node) ps result) :
    doc.ComesTo seen node ps result := by
  generalize hc : Chain.along seen node = c at h
  induction h generalizing seen node with
  | ended => cases hc
  | @hop c c' ps result hhop hrest ih =>
      subst hc
      rcases hop_cases hhop with ⟨hend, rfl⟩ | ⟨p, hp, hr, rfl⟩ | ⟨fault, hfails, rfl⟩ |
        ⟨p, name, target, hp, hresolve, rfl⟩
      · obtain ⟨rfl, rfl⟩ := eq_of_run_ended hrest
        exact .of_stop (.inl ⟨hend, rfl⟩)
      · obtain ⟨rfl, rfl⟩ := eq_of_run_ended hrest
        exact .of_stop (.inr (.inl ⟨p, hp, hr, rfl⟩))
      · obtain ⟨rfl, rfl⟩ := eq_of_run_ended hrest
        exact .of_stop (.inr (.inr ⟨fault, hfails, rfl⟩))
      · rw [pointer?_eq_some_iff.2 hp]
        exact (ih rfl).cons hp hresolve

/-- The loop resolves one pointer more than there are in the document at most. -/
theorem length_le_of_comesTo (h : doc.ComesTo [] node ps result) :
    ps.length ≤ doc.pointers.eraseDups.length + 1 := by
  have hnodup : ps.Nodup := h.nodup List.nodup_nil
  have hsubset : ps ⊆ Schema.followed node ++ doc.pointers.eraseDups := fun p hp => by
    simpa using h.within hp
  have hfollowed : (Schema.followed node).length ≤ 1 := by
    unfold Schema.followed
    split <;> simp
  have hlength := (hnodup.subperm hsubset).length_le
  rw [List.length_append] at hlength
  omega

/-- A run from the start of a chain ends in one of three ways. -/
theorem ComesTo.cases (h : doc.ComesTo [] node ps result) :
    (∃ v, ReflTransGen doc.Refers node v ∧ v.isReference = false ∧ result = .ok v) ∨
      (∃ v, ReflTransGen doc.Refers node v ∧ (∃ p ∈ ps, v.reference? = some (.str p)) ∧
        doc.IsCyclic node ∧ result = .ok v) ∨
      ∃ v fault, ReflTransGen doc.Refers node v ∧ doc.Fails v fault ∧ result = .error fault := by
  obtain ⟨v, hv, ⟨hend, rfl⟩ | ⟨p, hr, rfl, hp⟩ | ⟨fault, hfails, rfl⟩⟩ := h.stops
  · exact .inl ⟨v, hv, hend, rfl⟩
  · obtain ⟨hp, name, w, hresolve, hw, hback⟩ := hp.resolve_left List.not_mem_nil
    have hstep : doc.Refers v w := ⟨_, name, hr, hresolve⟩
    exact .inr (.inl ⟨v, hv, ⟨p, hp, hr⟩, ⟨w, hw, .tail' hback hstep⟩, rfl⟩)
  · exact .inr (.inr ⟨v, fault, hv, hfails, rfl⟩)

namespace ComesTo

theorem eq_ok_iff (h : doc.ComesTo [] node ps result) :
    result = .ok v ∧ v.isReference = false ↔
      ReflTransGen doc.Refers node v ∧ v.isReference = false := by
  constructor
  · rintro ⟨rfl, hend⟩
    rcases h.cases with ⟨w, hw, -, heq⟩ | ⟨w, hw, -, -, heq⟩ | ⟨w, fault, -, -, heq⟩
    · obtain rfl := Except.ok.inj heq
      exact ⟨hw, hend⟩
    · obtain rfl := Except.ok.inj heq
      exact ⟨hw, hend⟩
    · cases heq
  · rintro ⟨hv, hend⟩
    have hstop (x : Value) : ¬ doc.Refers v x := not_refers_of_not_isReference hend
    rcases h.cases with ⟨w, hw, hend', rfl⟩ | ⟨w, -, -, hcyclic, -⟩ | ⟨w, fault, hw, hfails, -⟩
    · obtain rfl := eq_of_stops hv hstop hw fun _ => not_refers_of_not_isReference hend'
      exact ⟨rfl, hend⟩
    · exact absurd hcyclic (not_isCyclic_of_stops hv hstop)
    · obtain rfl := eq_of_stops hv hstop hw fun _ => hfails.not_refers
      exact absurd hfails.isReference (by simp [hend])

theorem eq_error_iff (h : doc.ComesTo [] node ps result) :
    result = .error fault ↔ ∃ v, ReflTransGen doc.Refers node v ∧ doc.Fails v fault := by
  constructor
  · rintro rfl
    rcases h.cases with ⟨w, -, -, heq⟩ | ⟨w, -, -, -, heq⟩ | ⟨w, fault', hw, hfails, heq⟩
    · cases heq
    · cases heq
    · obtain rfl := Except.error.inj heq
      exact ⟨w, hw, hfails⟩
  · rintro ⟨v, hv, hfails⟩
    have hstop (x : Value) : ¬ doc.Refers v x := hfails.not_refers
    rcases h.cases with ⟨w, hw, hend, -⟩ | ⟨w, -, -, hcyclic, -⟩ | ⟨w, fault', hw, hfails', rfl⟩
    · obtain rfl := eq_of_stops hv hstop hw fun _ => not_refers_of_not_isReference hend
      exact absurd hfails.isReference (by simp [hend])
    · exact absurd hcyclic (not_isCyclic_of_stops hv hstop)
    · obtain rfl := eq_of_stops hv hstop hw fun _ => hfails'.not_refers
      rw [hfails.unique hfails']

theorem of_isReference (h : doc.ComesTo [] node ps result) (hresult : result = .ok v)
    (hv : v.isReference = true) :
    ReflTransGen doc.Refers node v ∧ (∃ p ∈ ps, v.reference? = some (.str p)) ∧
      doc.IsCyclic node := by
  subst hresult
  rcases h.cases with ⟨w, -, hend, heq⟩ | ⟨w, hw, hpointer, hcyclic, heq⟩ | ⟨w, fault, -, -, heq⟩
  · obtain rfl := Except.ok.inj heq
    exact absurd hv (by simp [hend])
  · obtain rfl := Except.ok.inj heq
    exact ⟨hw, hpointer, hcyclic⟩
  · cases heq

theorem exists_isReference_iff (h : doc.ComesTo [] node ps result) :
    (∃ v, result = .ok v ∧ v.isReference = true) ↔ doc.IsCyclic node := by
  constructor
  · rintro ⟨v, hresult, hv⟩
    exact (h.of_isReference hresult hv).2.2
  · intro hcyclic
    rcases h.cases with ⟨w, hw, hend, -⟩ | ⟨w, -, ⟨p, -, hr⟩, -, rfl⟩ | ⟨w, fault, hw, hfails, -⟩
    · exact absurd hcyclic (not_isCyclic_of_stops hw fun _ => not_refers_of_not_isReference hend)
    · exact ⟨w, rfl, isReference_of_reference? hr⟩
    · exact absurd hcyclic (not_isCyclic_of_stops hw fun _ => hfails.not_refers)

end ComesTo

/-- A chain of references ends, however its references lead back to each other.

The loop along it that remembers nothing but the pointers which it has resolved comes to an end, as
`settle` does; it resolves no pointer twice, and at most one more than there are in the document.
It ends at a node that is no reference exactly if the references lead to that node one by one; it
ends at a reference exactly if they lead in a circle, and the pointer of this reference is one that
it has resolved; and it fails exactly if one of the pointers does not resolve, as that pointer
does. -/
theorem chain_ends (doc : Document) (node : Value) :
    ∃ ps, doc.Run (.along [] node) ps (doc.settle node) ∧ ps.Nodup ∧
      ps.length ≤ doc.pointers.eraseDups.length + 1 ∧
      (∀ v, doc.settle node = .ok v ∧ v.isReference = false ↔
        ReflTransGen doc.Refers node v ∧ v.isReference = false) ∧
      (∀ v, doc.settle node = .ok v → v.isReference = true →
        ReflTransGen doc.Refers node v ∧ ∃ p ∈ ps, v.reference? = some (.str p)) ∧
      ((∃ v, doc.settle node = .ok v ∧ v.isReference = true) ↔ doc.IsCyclic node) ∧
      ∀ fault, doc.settle node = .error fault ↔
        ∃ v, ReflTransGen doc.Refers node v ∧ doc.Fails v fault := by
  obtain ⟨ps, hrun⟩ := exists_run_of_reaches (doc.reaches_settle node)
  have hcomes := comesTo_of_run hrun
  refine ⟨ps, hrun, hcomes.nodup List.nodup_nil, length_le_of_comesTo hcomes,
    fun v => hcomes.eq_ok_iff, fun v hv href => ?_, hcomes.exists_isReference_iff,
    fun fault => hcomes.eq_error_iff⟩
  obtain ⟨hreaches, hpointer, -⟩ := hcomes.of_isReference hv href
  exact ⟨hreaches, hpointer⟩

end OpenApiClient.Document
