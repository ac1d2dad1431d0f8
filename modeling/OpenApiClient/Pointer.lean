import OpenApiClient.Document
import OpenApiClient.Text.Digit

/-!
# References

A reference is a mapping with the field `$ref`.  It points at a component of the document by
the segments of a path; inside a segment `~1` is written for a slash and `~0` for a tilde.
Following is lazy: the node pointed at is given as it stands, references in it included.

A chain of references ends at a node that is no reference, or at a reference that the chain
has followed before.  What bounds a chain is the list of pointers that it has not followed
yet, to begin with all pointers of the document.
-/

namespace OpenApiClient

/-- What a reference points with. -/
def Value.reference? (v : Value) : Option Value := v.get? "$ref"

/-- Whether a value is a reference. -/
def Value.isReference (v : Value) : Bool := v.reference?.isSome

/-- A failure that is told by the text of a value; a value without a text is refused. -/
def Fault.ofValue (cause : String → Cause) (v : Value) : Fault :=
  if v.hasText then .of (cause v.text) else .refused .notANumber

@[simp] theorem Fault.ofValue_str (cause : String → Cause) (s : String) :
    Fault.ofValue cause (.str s) = .of (cause s) := rfl

namespace Pointer

/-- How every pointer that can be followed begins. -/
def start : String := "#/components/"

/-- Undoes the writing of slashes and tildes in a segment. -/
def unescape : List Char → List Char
  | '~' :: '1' :: rest => '/' :: unescape rest
  | '~' :: '0' :: rest => '~' :: unescape rest
  | c :: rest => c :: unescape rest
  | [] => []

/-- Writes slashes and tildes so that a text is one segment. -/
def escape : List Char → List Char
  | [] => []
  | '/' :: rest => '~' :: '1' :: escape rest
  | '~' :: rest => '~' :: '0' :: escape rest
  | c :: rest => c :: escape rest

/-- Undoing gives back what was written. -/
theorem unescape_escape (cs : List Char) : unescape (escape cs) = cs := by
  fun_induction escape cs with
  | case1 => simp [unescape]
  | case2 rest ih => simp [unescape, ih]
  | case3 rest ih => simp [unescape, ih]
  | case4 c rest _ h ih =>
    rw [unescape]
    · simp [ih]
    all_goals simp_all

/-- The segments of a pointer, none if it does not lead into the components. -/
def segments? (pointer : String) : Option (List String) :=
  if Text.startsWith pointer.toList start.toList then
    some ((Text.pieces '/' (pointer.toList.drop start.length)).map fun s =>
      String.ofList (unescape s))
  else none

/-- The pointer with some segments. -/
def ofSegments (segments : List String) : String :=
  start ++ Text.join "/" (segments.map fun s => String.ofList (escape s.toList))

/-- One step: into a mapping by key, into a list by position.  None if there is nothing; a
position that is no number is refused. -/
def step? (node : Value) (segment : String) : Except Fault (Option Value) :=
  match node with
  | .map _ es => .ok (Value.find? (.str segment) es)
  | .seq items =>
    if Text.isDigits segment then
      match Text.decimal? segment.toList with
      | some n => .ok items[n]?
      | none => .error (.refused .notANumber)
    else .ok none
  | _ => .ok none

/-- Walks along segments.  If a step leads nowhere, the segments up to it are reported;
`walked` holds the ones before, last one first. -/
def walk (pointer : String) : List String → Value → List String → Except Fault Value
  | _, node, [] => .ok node
  | walked, node, segment :: rest =>
    match step? node segment with
    | .error fault => .error fault
    | .ok (some next) => walk pointer (segment :: walked) next rest
    | .ok none =>
      .error (.of (.referenceNotFound pointer (Text.join "/" (segment :: walked).reverse)))

/-- A step leads to a smaller node. -/
theorem sizeOf_lt_of_step? {node next : Value} {segment : String}
    (h : step? node segment = .ok (some next)) : sizeOf next < sizeOf node := by
  unfold step? at h
  split at h
  · have := Value.sizeOf_lt_of_find? (Except.ok.inj h)
    simp only [Value.map.sizeOf_spec]
    omega
  · next items =>
    split at h
    · split at h
      · have := List.sizeOf_lt_of_mem (List.mem_of_getElem? (Except.ok.inj h))
        simp only [Value.seq.sizeOf_spec]
        omega
      · cases h
    · cases Except.ok.inj h
  · cases Except.ok.inj h

/-- A walk leads to a node no larger than the one it starts at. -/
theorem sizeOf_le_of_walk {p : String} {segments walked : List String} {node target : Value}
    (h : walk p walked node segments = .ok target) : sizeOf target ≤ sizeOf node := by
  induction segments generalizing walked node with
  | nil =>
    cases Except.ok.inj h
    exact Nat.le_refl _
  | cons segment rest ih =>
    unfold walk at h
    split at h
    · cases h
    · next next hs =>
      have := sizeOf_lt_of_step? hs
      have := ih h
      omega
    · cases h

/-- The name a pointer ends with. -/
def lastSegment (segments : List String) : String := segments.getLast?.getD ""

end Pointer

namespace Document

/-- The name and the node that a pointer designates. -/
def resolve (doc : Document) (pointer : Value) : Except Fault (String × Value) :=
  match pointer with
  | .scalar (.str p) =>
    match Pointer.segments? p with
    | none => .error (.of (.unsupportedReference p))
    | some segments =>
      let components := doc.root.get "components"
      if components.isMap then
        (Pointer.walk p [] components segments).map fun node =>
          (Pointer.lastSegment segments, node)
      else .error (.of (.referenceNotFound p "components"))
  | v => .error (.ofValue .unsupportedReference v)

/-- What a pointer designates is smaller than the root. -/
theorem sizeOf_lt_of_resolve {doc : Document} {pointer target : Value} {name : String}
    (h : doc.resolve pointer = .ok (name, target)) : sizeOf target < sizeOf doc.root := by
  have hget (hm : (doc.root.get "components").isMap = true) :
      sizeOf (doc.root.get "components") < sizeOf doc.root := by
    apply Value.sizeOf_lt_of_get?
    unfold Value.get at hm ⊢
    cases hg : doc.root.get? "components" with
    | none => simp [hg, Value.isMap] at hm
    | some v => rfl
  unfold resolve at h
  split at h
  · next p =>
    split at h
    · cases h
    · next segments _ =>
      dsimp only at h
      split at h
      · next hm =>
        have := hget hm
        cases hw : Pointer.walk p [] (doc.root.get "components") segments with
        | error fault => simp [hw, Except.map] at h
        | ok node =>
          simp only [hw, Except.map, Except.ok.injEq, Prod.mk.injEq] at h
          obtain ⟨-, rfl⟩ := h
          have := Pointer.sizeOf_le_of_walk hw
          omega
      · cases h
  · cases h

/-- The list without a text. -/
def without (p : String) (unused : List String) : List String := unused.filter (· ≠ p)

@[simp] theorem mem_without {p q : String} {unused : List String} :
    q ∈ without p unused ↔ q ∈ unused ∧ q ≠ p := by
  simp [without]

/-- Dropping a member shortens a list. -/
theorem length_without_lt {p : String} {unused : List String} (h : p ∈ unused) :
    (without p unused).length < unused.length :=
  List.length_filter_lt_length_iff_exists.2 ⟨p, h, by simp⟩

/-- Follows a chain of references as long as it meets pointers that it has not used. -/
def chase (doc : Document) (unused : List String) (node : Value) : Except Fault Value :=
  match node.reference? with
  | none => .ok node
  | some (.scalar (.str p)) =>
    if _h : p ∈ unused then
      match doc.resolve (.str p) with
      | .error fault => .error fault
      | .ok (_, target) => chase doc (without p unused) target
    else .ok node
  | some v =>
    if v.isKey then .error (.ofValue .unsupportedReference v) else .error (.refused .notAKey)
termination_by unused.length
decreasing_by exact length_without_lt _h

/-- The pointers that a walk from a node may meet: its own and those of the document. -/
def reach (doc : Document) (node : Value) : List String := node.pointers ++ doc.pointers

/-- The node at the end of the chain of references that starts at a node. -/
def settle (doc : Document) (node : Value) : Except Fault Value :=
  match node.reference? with
  | none => .ok node
  | some (.scalar (.str p)) => doc.chase (p :: doc.pointers) node
  | some _ => doc.chase doc.pointers node

/-- What a chain ends at is no larger than the root or than the node it starts at. -/
theorem sizeOf_le_of_chase {doc : Document} {unused : List String} {node target : Value}
    (h : doc.chase unused node = .ok target) :
    sizeOf target ≤ max (sizeOf doc.root) (sizeOf node) := by
  fun_induction chase doc unused node with
  | case1 => cases h; omega
  | case2 => cases h
  | case3 unused node p _ _ name next hr ih =>
    have := sizeOf_lt_of_resolve hr
    have := ih h
    omega
  | case4 => cases h; omega
  | case5 => cases h
  | case6 => cases h

theorem sizeOf_le_of_settle {doc : Document} {node target : Value}
    (h : doc.settle node = .ok target) :
    sizeOf target ≤ max (sizeOf doc.root) (sizeOf node) := by
  unfold settle at h
  split at h
  · cases h; omega
  · exact sizeOf_le_of_chase h
  · exact sizeOf_le_of_chase h

/-- A node that is no reference is its own end. -/
theorem settle_of_not_reference {doc : Document} {node : Value}
    (h : node.isReference = false) : doc.settle node = .ok node := by
  have : node.reference? = none := by simpa [Value.isReference] using h
  simp [settle, this]

end Document

end OpenApiClient
