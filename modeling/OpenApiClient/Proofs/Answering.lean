import OpenApiClient.Proofs.Chains
import OpenApiClient.Proofs.Designation

/-!
# Which references are answered

Following a reference ends with a node or with a failure that tells of the reference, but not for
every reference.  What is no text is reported by its text, and an integer with too many digits has
none.  A list on the way of a pointer is asked for a position by every segment of digits, and not
every row of digits is a number.  And a chain of references looks its pointers up among those that
it has seen before it follows them, which it cannot do with a collection.

`IsAnswered` leaves out the first two, for one pointer; a chain is answered exactly if every pointer
on it is, and can be looked up.  In all other cases something is refused that has no word of the
reference in it: `reports_iff`.
-/

namespace OpenApiClient

open Pointer
open Relation (ReflTransGen)

/-- A failure that tells of a reference: it leads out of the components, or to nothing. -/
inductive Fault.IsReferenceFailure : Fault → Prop
  | unsupported (pointer : String) : IsReferenceFailure (.of (.unsupportedReference pointer))
  | notFound (pointer missing : String) :
      IsReferenceFailure (.of (.referenceNotFound pointer missing))

theorem Fault.not_isReferenceFailure_refused (refusal : Refusal) :
    ¬ (Fault.refused refusal).IsReferenceFailure := nofun

/-- An outcome that is a result or a failure which tells of a reference. -/
def Reports {α : Type} (outcome : Except Fault α) : Prop :=
  ∀ fault, outcome = .error fault → fault.IsReferenceFailure

section Reports

variable {α β : Type} {outcome : Except Fault α}

theorem reports_ok (a : α) : Reports (.ok a : Except Fault α) := nofun

theorem reports_error_iff {fault : Fault} :
    Reports (.error fault : Except Fault α) ↔ fault.IsReferenceFailure := by
  constructor
  · intro h
    exact h fault rfl
  · rintro h _ ⟨rfl⟩
    exact h

theorem reports_map_iff (f : α → β) : Reports (outcome.map f) ↔ Reports outcome := by
  cases outcome with
  | error fault => exact reports_error_iff.trans reports_error_iff.symm
  | ok a => exact iff_of_true (reports_ok (f a)) (reports_ok a)

/-- What is told by the text of a value tells of a reference exactly if the value has a text. -/
theorem isReferenceFailure_ofValue_iff (v : Value) :
    (Fault.ofValue .unsupportedReference v).IsReferenceFailure ↔ v.hasText = true := by
  unfold Fault.ofValue
  cases v.hasText with
  | false => exact iff_of_false (Fault.not_isReferenceFailure_refused _) Bool.false_ne_true
  | true => exact iff_of_true (.unsupported v.text) rfl

end Reports

namespace Pointer

variable {p segment : String} {segments walked : List String} {node next : Value}

/-- A position that is no number is refused. -/
theorem step?_of_unreadable (h : Unreadable node segment) :
    step? node segment = .error (.refused .notANumber) := by
  obtain ⟨⟨items, rfl⟩, hdigits, hread⟩ := h
  have hnone : Text.decimal? segment.toList = none := by
    unfold Text.decimal?
    split
    · rfl
    · next hlimit =>
        rcases hread with ⟨c, hc, hvalue⟩ | hlong
        · rw [Option.map_eq_none_iff, Option.eq_none_iff_forall_ne_some]
          intro digits hmap
          have hmem := List.mem_map_of_mem (f := Text.decimalValue?) hc
          rw [Text.mapM_decimalValue?_eq_some.1 hmap, hvalue] at hmem
          simp at hmem
        · simp [hlong] at hlimit
  rw [step?, if_pos hdigits, hnone]

/-- A walk on which some list is asked for a position that is no number is refused. -/
theorem walk_of_not_readable (h : ¬ Readable node segments) :
    walk p walked node segments = .error (.refused .notANumber) := by
  induction segments generalizing node walked with
  | nil =>
      refine absurd ?_ h
      intro walked segment rest place heq
      simp at heq
  | cons segment rest ih =>
      by_cases hhere : Unreadable node segment
      · rw [walk, step?_of_unreadable hhere]
      · -- The position stands behind the first step, so that there is one.
        simp only [Readable, not_forall, not_not] at h
        obtain ⟨before, later, behind, place, heq, hleads, hread⟩ := h
        cases hleads with
        | here =>
            obtain ⟨rfl, -⟩ := List.cons.inj heq
            exact absurd hread hhere
        | @step _ next _ _ before hstep hleads =>
            obtain ⟨rfl, hrest⟩ := List.cons.inj heq
            rw [walk, step?_eq_of_step hhere hstep]
            exact ih fun hreadable => hreadable before later behind place hrest hleads hread

/-- A walk on which all positions are numbers leads to a node, or it is reported that it does
not. -/
theorem reports_walk (h : Readable node segments) : Reports (walk p walked node segments) := by
  induction segments generalizing node walked with
  | nil => exact reports_ok node
  | cons segment rest ih =>
      have hhere : ¬ Unreadable node segment := h [] segment rest node rfl (.here node)
      by_cases hstep : ∃ next, Step node segment next
      · obtain ⟨next, hstep⟩ := hstep
        rw [walk, step?_eq_of_step hhere hstep]
        exact ih (h.of_step hstep)
      · rw [walk, step?_eq_of_not_step hhere hstep]
        exact reports_error_iff.2 (.notFound p _)

theorem reports_walk_iff : Reports (walk p walked node segments) ↔ Readable node segments := by
  constructor
  · intro h
    by_contra hnot
    rw [walk_of_not_readable hnot] at h
    exact Fault.not_isReferenceFailure_refused _ (reports_error_iff.1 h)
  · exact reports_walk

end Pointer

namespace Document

variable {doc : Document} {pointer node : Value}

/-- A pointer that is followed or reported: it has a text, and where its segments lead through the
components, no list is asked for a position that is no number. -/
structure IsAnswered (doc : Document) (pointer : Value) : Prop where
  hasText : pointer.hasText = true
  readable : ∀ raws : List String, raws ≠ [] → (∀ raw ∈ raws, '/' ∉ raw.toList) →
    pointer = .str (start ++ Text.join "/" raws) → (doc.root.get "components").isMap = true →
    Readable (doc.root.get "components") (raws.map segmentOf)

theorem reports_resolve_of_segments? {p : String} {segments : List String}
    (h : segments? p = some segments) : Reports (doc.resolve (.str p)) ↔
      ((doc.root.get "components").isMap = true →
        Readable (doc.root.get "components") segments) := by
  rw [resolve_of_segments? h]
  split
  · next hmap => rw [reports_map_iff, reports_walk_iff, imp_iff_right hmap]
  · next hmap =>
      exact iff_of_true (reports_error_iff.2 (.notFound p _)) fun hmap' => absurd hmap' hmap

/-- Pointers are answered as far as they have a text and can be read. -/
theorem reports_resolve_iff (doc : Document) (pointer : Value) :
    Reports (doc.resolve pointer) ↔ doc.IsAnswered pointer := by
  by_cases htext : ∃ p, pointer = .str p
  · obtain ⟨p, rfl⟩ := htext
    cases hsegments : segments? p with
    | none =>
        have hresolve : doc.resolve (.str p) = .error (.of (.unsupportedReference p)) := by
          simp only [resolve, hsegments]
        rw [hresolve]
        refine iff_of_true (reports_error_iff.2 (.unsupported p)) ⟨rfl, ?_⟩
        intro raws hne hraws heq
        rw [Scalar.str.inj (Value.scalar.inj heq), segments?_join hne hraws] at hsegments
        cases hsegments
    | some segments =>
        rw [reports_resolve_of_segments? hsegments]
        constructor
        · intro hread
          refine ⟨rfl, ?_⟩
          intro raws hne hraws heq
          rw [Scalar.str.inj (Value.scalar.inj heq), segments?_join hne hraws] at hsegments
          obtain rfl := Option.some.inj hsegments
          exact hread
        · intro hanswered
          have hstart : start.toList <+: p.toList := by
            rw [← List.isPrefixOf_iff_prefix, ← Text.startsWith]
            by_contra hnot
            rw [segments?, if_neg hnot] at hsegments
            cases hsegments
          obtain ⟨raws, hne, hraws, rfl⟩ := exists_eq_join hstart
          rw [segments?_join hne hraws] at hsegments
          obtain rfl := Option.some.inj hsegments
          exact hanswered.readable raws hne hraws rfl
  · have hnot (p : String) : pointer ≠ .str p := fun heq => htext ⟨p, heq⟩
    rw [resolve_of_not_text hnot, reports_error_iff, isReferenceFailure_ofValue_iff]
    constructor
    · intro h
      exact ⟨h, fun raws _ _ heq => absurd heq (hnot _)⟩
    · exact IsAnswered.hasText

theorem reports_lookUp_iff :
    Reports (doc.lookUp pointer) ↔ pointer.isKey = true ∧ doc.IsAnswered pointer := by
  unfold lookUp
  split
  · next hkey => rw [reports_resolve_iff, and_iff_right hkey]
  · next hkey =>
      exact iff_of_false (fun h => Fault.not_isReferenceFailure_refused _ (reports_error_iff.1 h))
        fun h => hkey h.1

/-- A chain fails as one of the pointers on it does. -/
theorem reports_settle_iff_reports_lookUp : Reports (doc.settle node) ↔
    ∀ v, ReflTransGen doc.Refers node v → ∀ pointer, v.reference? = some pointer →
      Reports (doc.lookUp pointer) := by
  obtain ⟨ps, hrun⟩ := exists_run_of_reaches (doc.reaches_settle node)
  have hcomes := comesTo_of_run hrun
  constructor
  · intro h v hv pointer hpointer fault hfails
    exact h fault (hcomes.eq_error_iff.2 ⟨v, hv, pointer, hpointer, hfails⟩)
  · intro h fault hfails
    obtain ⟨v, hv, pointer, hpointer, hlookUp⟩ := hcomes.eq_error_iff.1 hfails
    exact h v hv pointer hpointer fault hlookUp

/-- Which references are answered.

A pointer is followed or reported exactly if it has a text and its segments ask no list for a
position that is no number.  A chain of references is followed or reported exactly if every
reference that it comes to has such a pointer, and one that is no collection. -/
theorem reports_iff (doc : Document) :
    (∀ pointer, Reports (doc.resolve pointer) ↔ doc.IsAnswered pointer) ∧
      ∀ node, Reports (doc.settle node) ↔
        ∀ v, ReflTransGen doc.Refers node v → ∀ pointer, v.reference? = some pointer →
          pointer.isKey = true ∧ doc.IsAnswered pointer := by
  refine ⟨doc.reports_resolve_iff, ?_⟩
  intro node
  rw [reports_settle_iff_reports_lookUp]
  simp only [reports_lookUp_iff]

/-- Components with a list of schemas, of which the second one is a reference by a list. -/
def listedDocument : Document :=
  .ofValue <| .map 0 [(.str "components", .map 1 [(.str "schemas", .seq
    [.map 2 [(.str "type", .str "string")], .map 3 [(.str "$ref", .seq [.str "Pet"])]])])]

/-- Neither a position written with a superscript digit nor a list in the place of a pointer is
reported, and neither is an integer that is too long to be written. -/
theorem not_reports_listedDocument :
    ¬ Reports (listedDocument.resolve (.str "#/components/schemas/²")) ∧
      ¬ Reports (listedDocument.resolve (.int (10 ^ Text.digitLimit))) ∧
      ¬ Reports
        (listedDocument.settle (.map 4 [(.str "$ref", .str "#/components/schemas/1")])) := by
  have hposition : listedDocument.resolve (.str "#/components/schemas/²") =
      .error (.refused .notANumber) := by decide +kernel
  have hinteger : listedDocument.resolve (.int (10 ^ Text.digitLimit)) =
      .error (.refused .notANumber) := by decide +kernel
  have hlist : listedDocument.settle (.map 4 [(.str "$ref", .str "#/components/schemas/1")]) =
      .error (.refused .notAKey) := by decide +kernel
  rw [hposition, hinteger, hlist]
  simp only [reports_error_iff, Fault.not_isReferenceFailure_refused, not_false_iff, and_self]

end Document

end OpenApiClient
