import OpenApiClient.Schema.Basic

/-!
# Composition of schemas

A schema is composed of the members of its `allOf` and of what it declares itself.  This
module lists what a schema contributes to an entity: the contributions of its members, in
order, and then its own properties.  References among the members are followed, each pointer
at most once on a chain of members, so that the list is finite whatever the pointers do.

What cannot be walked contributes a failure in its place.  Whoever uses the list from the
front meets it exactly when everything before it has been used.
-/

namespace OpenApiClient.Schema

/-- What a schema contributes to an entity. -/
inductive Contribution where
  /-- A property: its name, its schema, and whether it is required. -/
  | property (name : Scalar) (schema : Value) (required : Bool)
  /-- A pointer that the chain of members has followed before. -/
  | cycle (pointer : String)
  /-- The walk ends here. -/
  | failure (fault : Fault)
  deriving DecidableEq, Repr

/-- The members of a composition; what is walked through but holds no schemas has none. -/
def members (node : Value) : Except Fault (List Value) :=
  match node.get? "allOf" with
  | none => .ok []
  | some (.seq items) => .ok items
  | some v => v.membersOrNone.map fun _ => []

/-- A member is smaller than the node it belongs to. -/
theorem sizeOf_lt_of_mem_members {node m : Value} {ms : List Value}
    (h : members node = .ok ms) (hm : m ∈ ms) : sizeOf m < sizeOf node := by
  unfold members at h
  split at h
  · cases h; simp at hm
  · next items hi =>
    cases h
    have h₁ := Value.sizeOf_lt_of_get? hi
    have h₂ := List.sizeOf_lt_of_mem hm
    simp only [Value.seq.sizeOf_spec] at h₁
    omega
  · next v _ _ =>
    cases hv : v.membersOrNone with
    | error f => simp [hv, Except.map] at h
    | ok xs =>
      simp only [hv, Except.map, Except.ok.injEq] at h
      subst h; simp at hm

/-- The properties that a node declares itself. -/
def ownProperties (node : Value) : List Contribution :=
  let required := (node.get "required").orElse (.seq [])
  match (node.get "properties").entriesOrNone with
  | .error fault => [.failure fault]
  | .ok es => es.map fun (name, schema) =>
    match required.contains (.scalar name) with
    | .error fault => .failure fault
    | .ok r => .property name schema r

/-- What bounds a walk: with every pointer that is followed it may start anew at any node of the
document. -/
noncomputable def weight (doc : Document) (unused : List String) (node : Value) : Nat :=
  unused.length * (2 * sizeOf doc.root + 2) + 2 * sizeOf node

/-- Following a pointer lowers the bound. -/
theorem weight_without_lt {doc : Document} {p : String} {unused : List String}
    {node target : Value} (hp : p ∈ unused) (hs : doc.settle node = .ok target) :
    weight doc (Document.without p unused) target < weight doc unused node + 1 := by
  have hlength := Document.length_without_lt hp
  have hsize := Document.sizeOf_le_of_settle hs
  have hmul := Nat.mul_le_mul_right (2 * sizeOf doc.root + 2) (Nat.succ_le_of_lt hlength)
  rw [Nat.succ_mul] at hmul
  unfold weight
  omega

mutual

/-- What a schema contributes.  `unused` holds the pointers that the chain of members has not
followed yet. -/
def contributions (doc : Document) (unused : List String) (node : Value) : List Contribution :=
  match node.reference? with
  | none => settledContributions doc unused node
  | some (.scalar (.str p)) =>
    if _h : p ∈ unused then
      match _hs : doc.settle node with
      | .error fault => [.failure fault]
      | .ok target => settledContributions doc (Document.without p unused) target
    else [.cycle p]
  | some pointer =>
    if pointer.isKey then [.failure (.ofValue .unsupportedReference pointer)]
    else [.failure (.refused .notAKey)]
termination_by weight doc unused node + 1
decreasing_by
  · exact Nat.lt_add_one _
  · exact weight_without_lt _h _hs

/-- What a node at the end of a chain of references contributes. -/
def settledContributions (doc : Document) (unused : List String) (node : Value) :
    List Contribution :=
  if node.isMap then
    match _h : members node with
    | .error fault => [.failure fault]
    | .ok ms => (ms.attach.flatMap fun ⟨m, _⟩ => contributions doc unused m) ++
        ownProperties node
  else []
termination_by weight doc unused node
decreasing_by
  have := sizeOf_lt_of_mem_members _h ‹_›
  unfold weight
  omega

end

/-- A reference contributes what the node at the end of its chain does. -/
theorem contributions_of_reference {doc : Document} {unused : List String} {node target : Value}
    {p : String} (hr : node.reference? = some (.str p)) (hp : p ∈ unused)
    (hs : doc.settle node = .ok target) :
    contributions doc unused node =
      settledContributions doc (Document.without p unused) target := by
  rw [contributions, hr]
  dsimp only
  rw [dif_pos hp]
  split
  · next h => cases hs.symm.trans h
  · next h =>
    cases hs.symm.trans h
    rfl

/-- A reference that cannot be followed fails. -/
theorem contributions_of_fault {doc : Document} {unused : List String} {node : Value}
    {p : String} {fault : Fault} (hr : node.reference? = some (.str p)) (hp : p ∈ unused)
    (hs : doc.settle node = .error fault) :
    contributions doc unused node = [.failure fault] := by
  rw [contributions, hr]
  dsimp only
  rw [dif_pos hp]
  split
  · next h =>
    cases hs.symm.trans h
    rfl
  · next h => cases hs.symm.trans h

/-- What a schema contributes to the entity made of it. -/
def closure (doc : Document) (node : Value) : List Contribution :=
  contributions doc (doc.reach node) node

end OpenApiClient.Schema
