import OpenApiClient.Proofs.Walk
import Mathlib.Data.List.Basic

/-!
# Where the pointers of parts come from

Whatever a walk gets out of a document, by looking into a value, by following a reference or by
composing a schema, holds no other pointers than the value it started from and the document
itself.  This is what makes the pointers of a document a bound for all walks.
-/

namespace OpenApiClient

/-- Only the text itself is the same key as a text. -/
theorem Scalar.eq_of_same_str {k : Scalar} {s : String} (h : k.same (.str s) = true) :
    k = .str s := by
  cases k with
  | str t => simpa using h
  | float x =>
      cases hx : Scalar.number? (.float x) <;>
        simp [Scalar.same, hx, show Scalar.number? (.str s) = none from rfl] at h
  | _ => simp [Scalar.same, Scalar.number?] at h

namespace Value

theorem mem_pointersOfEntries_cons {p : String} {k : Scalar} {v : Value} {es : Entries}
    (h : p ∈ v.pointers ∨ p ∈ pointersOfEntries es) :
    p ∈ pointersOfEntries ((k, v) :: es) := by
  unfold pointersOfEntries
  rcases h with h | h
  · exact List.mem_append_left _ (List.mem_append_right _ h)
  · exact List.mem_append_right _ h

theorem pointers_subset_of_find? {key : Scalar} {es : Entries} {v : Value}
    (h : find? key es = some v) : v.pointers ⊆ pointersOfEntries es := by
  induction es with
  | nil => simp at h
  | cons e rest ih =>
      obtain ⟨k, w⟩ := e
      unfold find? at h
      intro p hp
      apply mem_pointersOfEntries_cons
      split at h
      · obtain rfl := Option.some.inj h
        exact .inl hp
      · exact .inr (ih h hp)

/-- A field holds no other pointers than the mapping it belongs to. -/
theorem pointers_subset_of_get? {v w : Value} {name : String} (h : v.get? name = some w) :
    w.pointers ⊆ v.pointers := by
  unfold get? at h
  split at h
  · rw [pointers]
    exact pointers_subset_of_find? h
  · simp at h

theorem pointers_get_subset (v : Value) (name : String) :
    (v.get name).pointers ⊆ v.pointers := by
  unfold get
  cases h : v.get? name with
  | none => simp [pointers]
  | some w => exact pointers_subset_of_get? h

theorem pointers_subset_of_mem {v : Value} {items : List Value} (h : v ∈ items) :
    v.pointers ⊆ (seq items).pointers := by
  rw [pointers]
  induction items with
  | nil => simp at h
  | cons w rest ih =>
      intro p hp
      rw [pointersOfItems]
      rcases List.mem_cons.1 h with rfl | h
      · exact List.mem_append_left _ hp
      · exact List.mem_append_right _ (ih h hp)

theorem pointers_subset_of_mem_entries {k : Scalar} {v : Value} {es : Entries}
    (h : (k, v) ∈ es) : v.pointers ⊆ pointersOfEntries es := by
  induction es with
  | nil => simp at h
  | cons e rest ih =>
      obtain ⟨l, w⟩ := e
      intro p hp
      apply mem_pointersOfEntries_cons
      rcases List.mem_cons.1 h with heq | h
      · obtain ⟨rfl, rfl⟩ := Prod.mk.inj heq
        exact .inl hp
      · exact .inr (ih h hp)

theorem pointers_subset_of_entriesOrNone {v : Value} {es : Entries} (h : v.entriesOrNone = .ok es)
    {e : Scalar × Value} (he : e ∈ es) : e.2.pointers ⊆ v.pointers := by
  unfold entriesOrNone at h
  split at h
  · split at h
    · obtain rfl := Except.ok.inj h
      rw [pointers]
      exact pointers_subset_of_mem_entries he
    · cases h
  · obtain rfl := Except.ok.inj h
    cases he

theorem pointers_subset_of_mem_pair {a b x : Value} (h : x ∈ [a, b]) :
    x.pointers ⊆ (pair a b).pointers := by
  rw [pointers.eq_3]
  rcases List.mem_pair.1 h with rfl | rfl
  · exact List.subset_append_left _ _
  · exact List.subset_append_right _ _

theorem mem_of_atPosition {items : List Value} {n : Int} {x : Value}
    (h : index.atPosition items n = .ok x) : x ∈ items := by
  unfold index.atPosition at h
  dsimp only at h
  generalize (if n < 0 then n + items.length else n) = m at h
  split at h
  · cases h
  · cases hget : items[m.toNat]? with
    | none =>
        rw [hget] at h
        cases h
    | some y =>
        rw [hget] at h
        obtain rfl := Except.ok.inj h
        exact List.mem_of_getElem? hget

theorem pointers_subset_of_index {v i x : Value} (h : v.index i = .ok x) :
    x.pointers ⊆ v.pointers := by
  unfold index at h
  split at h
  · next es =>
      split at h
      · next k =>
          cases hfind : find? k es with
          | none =>
              rw [hfind] at h
              cases h
          | some y =>
              rw [hfind] at h
              obtain rfl := Except.ok.inj h
              rw [pointers]
              exact pointers_subset_of_find? hfind
      · cases h
  · split at h
    · exact pointers_subset_of_mem (mem_of_atPosition h)
    · cases h
  · split at h
    · exact pointers_subset_of_mem_pair (mem_of_atPosition h)
    · cases h
  · split at h
    · obtain ⟨c, -, rfl⟩ := List.mem_map.1 (mem_of_atPosition h)
      simp [pointers]
    · cases h
  · split at h
    · obtain ⟨c, -, rfl⟩ := List.mem_map.1 (mem_of_atPosition h)
      simp [pointers]
    · cases h
  · cases h

theorem pointers_subset_of_membersOrNone {v : Value} {vs : List Value}
    (h : v.membersOrNone = .ok vs)
    {x : Value} (hx : x ∈ vs) : x.pointers ⊆ v.pointers := by
  unfold membersOrNone at h
  split at h
  · unfold members at h
    split at h
    · obtain rfl := Except.ok.inj h
      exact pointers_subset_of_mem hx
    · obtain rfl := Except.ok.inj h
      obtain ⟨e, -, rfl⟩ := List.mem_map.1 hx
      simp [pointers]
    · obtain rfl := Except.ok.inj h
      obtain ⟨s, -, rfl⟩ := List.mem_map.1 hx
      simp [pointers]
    · obtain rfl := Except.ok.inj h
      exact pointers_subset_of_mem_pair hx
    · obtain rfl := Except.ok.inj h
      obtain ⟨c, -, rfl⟩ := List.mem_map.1 hx
      simp [pointers]
    · obtain rfl := Except.ok.inj h
      obtain ⟨b, -, rfl⟩ := List.mem_map.1 hx
      simp [pointers]
    · cases h
  · obtain rfl := Except.ok.inj h
    cases hx

theorem mem_pointers_of_reference? {v : Value} {p : String}
    (h : v.reference? = some (.str p)) : p ∈ v.pointers := by
  unfold reference? get? at h
  split at h
  · next o es =>
      rw [pointers]
      induction es with
      | nil => simp at h
      | cons e rest ih =>
          obtain ⟨k, w⟩ := e
          unfold find? at h
          split at h
          · next hk =>
              obtain rfl := Scalar.eq_of_same_str hk
              obtain rfl := Option.some.inj h
              unfold pointersOfEntries
              simp
          · exact mem_pointersOfEntries_cons (.inr (ih h))
  · simp at h

end Value

namespace Pointer

theorem pointers_subset_of_step? {node next : Value} {segment : String}
    (h : step? node segment = .ok (some next)) : next.pointers ⊆ node.pointers := by
  unfold step? at h
  split at h
  · next o es =>
      rw [Value.pointers]
      exact Value.pointers_subset_of_find? (by simpa using h)
  · next items =>
      split at h
      · split at h
        · next n _ =>
            obtain ⟨_, hn⟩ := List.getElem?_eq_some_iff.1 (Except.ok.inj h)
            exact Value.pointers_subset_of_mem (List.mem_of_getElem hn)
        · simp at h
      · simp at h
  · simp at h

theorem pointers_subset_of_walk {p : String} {segments : List String} {walked : List String}
    {node target : Value} (h : walk p walked node segments = .ok target) :
    target.pointers ⊆ node.pointers := by
  induction segments generalizing walked node with
  | nil =>
      rw [walk] at h
      obtain rfl := Except.ok.inj h
      exact List.Subset.refl _
  | cons segment rest ih =>
      rw [walk] at h
      split at h
      · simp at h
      · next next hstep => exact List.Subset.trans (ih h) (pointers_subset_of_step? hstep)
      · simp at h

end Pointer

namespace Document

/-- What a pointer designates lies inside the document. -/
theorem pointers_subset_of_resolve {doc : Document} {pointer target : Value} {name : String}
    (h : doc.resolve pointer = .ok (name, target)) : target.pointers ⊆ doc.pointers := by
  unfold resolve at h
  split at h
  · split at h
    · simp at h
    · dsimp only at h
      split at h
      · obtain ⟨node, hw, heq⟩ := Walk.map_eq_ok.1 h
        obtain ⟨-, rfl⟩ := Prod.mk.inj heq
        rw [doc.pointers_eq]
        exact List.Subset.trans (Pointer.pointers_subset_of_walk hw)
          (Value.pointers_get_subset _ _)
      · simp at h
  · simp at h

theorem pointers_subset_of_chase {doc : Document} {unused : List String} {node target : Value}
    (h : doc.chase unused node = .ok target) :
    target.pointers ⊆ node.pointers ++ doc.pointers := by
  fun_induction chase doc unused node with
  | case1 =>
      obtain rfl := Except.ok.inj h
      exact List.subset_append_left _ _
  | case2 => simp at h
  | case3 unused node p hp hmem name next hres ih =>
      refine List.Subset.trans (ih h) (List.append_subset.2 ⟨?_, List.subset_append_right _ _⟩)
      exact List.Subset.trans (pointers_subset_of_resolve hres) (List.subset_append_right _ _)
  | case4 =>
      obtain rfl := Except.ok.inj h
      exact List.subset_append_left _ _
  | case5 => simp at h
  | case6 => simp at h

/-- The end of a chain of references holds no other pointers than its start and the
document. -/
theorem pointers_subset_of_settle {doc : Document} {node target : Value}
    (h : doc.settle node = .ok target) : target.pointers ⊆ node.pointers ++ doc.pointers := by
  unfold settle at h
  split at h
  · obtain rfl := Except.ok.inj h
    exact List.subset_append_left _ _
  · exact pointers_subset_of_chase h
  · exact pointers_subset_of_chase h

end Document

namespace Schema

theorem pointers_subset_of_members {node m : Value} {ms : List Value}
    (h : members node = .ok ms) (hm : m ∈ ms) : m.pointers ⊆ node.pointers := by
  unfold members at h
  split at h
  · obtain rfl := Except.ok.inj h
    simp at hm
  · next items hi =>
      obtain rfl := Except.ok.inj h
      exact List.Subset.trans (Value.pointers_subset_of_mem hm) (Value.pointers_subset_of_get? hi)
  · next v _ _ =>
      obtain ⟨_, _, rfl⟩ := Walk.map_eq_ok.1 h
      simp at hm

theorem pointers_subset_of_ownProperties {node schema : Value} {name : Scalar} {required : Bool}
    (h : .property name schema required ∈ ownProperties node) :
    schema.pointers ⊆ node.pointers := by
  unfold ownProperties at h
  dsimp only at h
  split at h
  · simp at h
  · next es hes =>
      obtain ⟨⟨k, v⟩, hmem, heq⟩ := List.mem_map.1 h
      dsimp only at heq
      split at heq
      · cases heq
      · cases heq
        exact List.Subset.trans (Value.pointers_subset_of_entriesOrNone hes hmem)
          (Value.pointers_get_subset node "properties")

end Schema

end OpenApiClient
