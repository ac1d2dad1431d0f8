import OpenApiClient.Proofs.Making
import OpenApiClient.Proofs.Parallel
import OpenApiClient.Proofs.Respelling

/-!
# Documents that mirror each other

A document is mirrored by another one if all its pointers lead there to what they lead to in the
document itself, under the same name, with other origins and with types that may be null written as
lists where this is read the same; the other document may hold more.  No schema can tell the two
apart: chains of references end at values that respell each other, properties are typed alike, and
schemas contribute the same.
-/

namespace OpenApiClient

open Walk

open Value (Alike)

variable {r : Role} {doc doc' : Document} {v w p q : Value}

namespace Document

/-- The node that a pointer leads to, if it leads anywhere. -/
def target? (doc : Document) (s : String) : Option Value :=
  (doc.resolve (.str s)).toOption.map (·.2)

/-- What the pointers of a document lead to is respelled, in a role, by what they lead to in the
other document, and those that lead nowhere lead nowhere.  What is one node in the one document is
one node in the other. -/
structure Mirrors (r : Role) (doc doc' : Document) : Prop where
  role : r.Refines .node
  leads (s : String) (hs : s ∈ doc.pointers) :
    Matches (fun x y => y.1 = x.1 ∧ x.2.respells Role.readsLists r y.2) (doc.resolve (.str s))
      (doc'.resolve (.str s))
  apart (s t : String) (hs : s ∈ doc.pointers) (ht : t ∈ doc.pointers) :
    doc.target? s = doc.target? t ↔ doc'.target? s = doc'.target? t

/-- A pointer of both documents. -/
def Shares (doc doc' : Document) (s : String) : Prop := s ∈ doc.pointers ∧ s ∈ doc'.pointers

/-- A value and its copy in some role, whose pointers are pointers of both documents. -/
structure Copies (doc doc' : Document) (r : Role) (v w : Value) : Prop where
  respells : v.respells Role.readsLists r w
  within : ∀ s ∈ v.pointers, Shares doc doc' s

/-- What a reference points with, and its copy. -/
structure Points (doc doc' : Document) (p q : Value) : Prop extends Copies doc doc' .fixed p q where
  text (s : String) (h : p = .str s) : Shares doc doc' s

/-- A node and its copy that one pointer leads to. -/
def Twins (doc doc' : Document) (v w : Value) : Prop :=
  ∃ s, Shares doc doc' s ∧ doc.target? s = some v ∧ doc'.target? s = some w

end Document

open Document

namespace Document.Copies

theorem alike (h : Copies doc doc' .fixed v w) : Alike v w :=
  Value.respells_fixed_iff.1 h.respells

theorem of_alike (h : Alike v w) (hwithin : ∀ s ∈ v.pointers, Shares doc doc' s) :
    Copies doc doc' r v w :=
  ⟨Value.respells_of_alike h, hwithin⟩

theorem mono {r' : Role} (h : Copies doc doc' r v w) (hr : r.Refines r') :
    Copies doc doc' r' v w :=
  ⟨hr h.respells, h.within⟩

theorem isMap (h : Copies doc doc' r v w) : w.isMap = v.isMap := Value.isMap_of_respells h.respells

theorem get? (h : Copies doc doc' r v w) {name : String} (hname : name ≠ "type") :
    Option.Rel (Copies doc doc' (r.field (.str name))) (v.get? name) (w.get? name) :=
  rel_of_eq_some (Value.get?_respells h.respells hname) fun _ _ hv _ hab =>
    ⟨hab, fun s hs => h.within s (Value.pointers_subset_of_get? hv hs)⟩

theorem get (h : Copies doc doc' r v w) {name : String} (hname : name ≠ "type") :
    Copies doc doc' (r.field (.str name)) (v.get name) (w.get name) := by
  have hrel := h.get? hname
  unfold Value.get
  generalize v.get? name = x, w.get? name = y at hrel ⊢
  cases hrel with
  | none => exact .of_alike (Alike.refl _) (by simp [Value.pointers])
  | some h => exact h

/-- The pointers of two references. -/
theorem reference? (h : Copies doc doc' r v w) (hr : r.field (.str "$ref") = .fixed) :
    Option.Rel (Points doc doc') v.reference? w.reference? :=
  rel_of_eq_some (h.get? (by decide : "$ref" ≠ "type")) fun _ _ hv _ hpq =>
    { toCopies := hr ▸ hpq
      text := fun s hs => h.within s (Value.mem_pointers_of_reference? (hs ▸ hv)) }

theorem reference?_eq_none (h : Copies doc doc' r v w) (hr : r.field (.str "$ref") = .fixed)
    (hv : v.reference? = none) : w.reference? = none :=
  eq_none_of_rel (hv ▸ h.reference? hr)

theorem exists_reference? (h : Copies doc doc' r v w) (hr : r.field (.str "$ref") = .fixed)
    (hv : v.reference? = some p) : ∃ q, w.reference? = some q ∧ Points doc doc' p q :=
  exists_of_rel (hv ▸ h.reference? hr)

/-- Mappings that respell each other outside of schemas have entries that do so. -/
theorem exists_of_map {origin : Nat} {es : Value.Entries}
    (h : Copies doc doc' r (.map origin es) w) (hr : ∀ v, r.readsLists v = false) :
    ∃ origin' fs, w = .map origin' fs ∧
      List.Forall₂ (fun e f => f.1 = e.1 ∧ Copies doc doc' (r.field e.1) e.2 f.2) es fs := by
  obtain ⟨origin', fs, rfl, hes⟩ := Value.exists_of_respells_map h.respells
  refine ⟨origin', fs, rfl, forall₂_of_mem hes fun e he f _ hef => ?_⟩
  refine ⟨hef.1, hef.2.resolve_right fun hown => ?_, fun s hs => h.within s ?_⟩
  · rw [hr] at hown
    exact absurd hown.1 (by decide)
  · rw [Value.pointers]
    exact Value.pointers_subset_of_mem_entries he hs

theorem exists_of_seq {vs : List Value} (h : Copies doc doc' (.list r) (.seq vs) w) :
    ∃ ws, w = .seq ws ∧ List.Forall₂ (Copies doc doc' r) vs ws := by
  obtain ⟨ws, rfl, hvs⟩ := Value.exists_of_respells_seq h.respells .null
  exact ⟨ws, rfl, forall₂_of_mem hvs fun x hx _ _ hxy => ⟨hxy, fun s hs =>
    h.within s (Value.pointers_subset_of_mem hx hs)⟩⟩

theorem entriesOrNone (h : Copies doc doc' (.entries r) v w) :
    Matches (List.Forall₂ fun e e' => e'.1 = e.1 ∧ Copies doc doc' r e.2 e'.2)
      v.entriesOrNone w.entriesOrNone := by
  unfold Value.entriesOrNone
  rw [Value.isFilled_of_respells h.respells]
  split
  · cases v with
    | map origin es =>
        obtain ⟨_, fs, rfl, hes⟩ := h.exists_of_map fun _ => rfl
        exact .ok hes
    | _ =>
        have hw := h.isMap
        cases w with
        | map => cases hw
        | _ => exact .error _ _
  · exact .ok .nil

theorem membersOrNone (h : Copies doc doc' (.list r) v w) :
    Matches (List.Forall₂ (Copies doc doc' r)) v.membersOrNone w.membersOrNone := by
  rcases Value.respells_cases h.respells with halike | ⟨_, vs, ws, -, rfl, rfl, -⟩ |
    ⟨_, _, _, _, hlist, -⟩
  · refine halike.membersOrNone.of_ok fun vs ws hvs _ hrel => ?_
    exact forall₂_of_mem hrel fun x hx _ _ hxy => .of_alike hxy fun s hs =>
      h.within s (Value.pointers_subset_of_membersOrNone hvs hx hs)
  · obtain ⟨_, heq, hvs⟩ := h.exists_of_seq
    obtain rfl := Value.seq.inj heq
    cases hvs with
    | nil => exact .ok .nil
    | cons hx hrest => exact .ok (.cons hx hrest)
  · exact absurd rfl (hlist r)

end Document.Copies

theorem Document.Points.str {s : String} (h : Points doc doc' (.str s) q) : q = .str s :=
  h.alike.of_scalar

namespace Document

theorem resolve_of_not_text (h : ∀ s, p ≠ .str s) :
    doc.resolve p = .error (.ofValue .unsupportedReference p) := by
  unfold resolve
  split
  · next s => exact absurd rfl (h s)
  · rfl

theorem chase_of_new {unused : List String} {s : String} (hr : v.reference? = some (.str s))
    (hs : s ∈ unused) :
    doc.chase unused v =
      doc.resolve (.str s) >>= fun found => doc.chase (without s unused) found.2 := by
  rw [chase, hr]
  dsimp only
  rw [dif_pos hs]
  cases doc.resolve (.str s) <;> rfl

theorem chase_of_used {unused : List String} {s : String} (hr : v.reference? = some (.str s))
    (hs : s ∉ unused) : doc.chase unused v = .ok v := by
  rw [chase, hr]
  dsimp only
  rw [dif_neg hs]

theorem chase_of_not_text (doc : Document) (unused : List String) (hr : v.reference? = some p)
    (hp : ∀ s, p ≠ .str s) : doc.chase unused v =
      .error (if p.isKey then .ofValue .unsupportedReference p else .refused .notAKey) := by
  rw [chase, hr]
  split
  · next heq => cases heq
  · next s heq => exact absurd (Option.some.inj heq) (hp s)
  · next q _ heq =>
      obtain rfl := Option.some.inj heq
      split <;> rfl

/-- The pointers that two chains may still follow are the same, as far as both documents have
them. -/
def SameRest (doc doc' : Document) (unused unused' : List String) : Prop :=
  ∀ s, Shares doc doc' s → (s ∈ unused ↔ s ∈ unused')

theorem SameRest.without {unused unused' : List String} (h : SameRest doc doc' unused unused')
    (s : String) : SameRest doc doc' (without s unused) (without s unused') := by
  intro t ht
  rw [mem_without, mem_without, h t ht]

namespace Mirrors

/-- A pointer leads to a node and its copy, and is a text that tells their name. -/
theorem resolve (h : doc.Mirrors r doc') (hp : Points doc doc' p q) :
    Matches (fun x y => y.1 = x.1 ∧ Copies doc doc' r x.2 y.2 ∧ Twins doc doc' x.2 y.2 ∧
      ∃ s, Shares doc doc' s ∧ Building.entityName? s = some (Text.capitalizeFirst x.1))
      (doc.resolve p) (doc'.resolve q) := by
  by_cases htext : ∃ s, p = .str s
  · obtain ⟨s, rfl⟩ := htext
    obtain rfl := hp.str
    have hs := hp.text s rfl
    refine (h.leads s hs.1).of_ok ?_
    rintro ⟨name, node⟩ ⟨_, node'⟩ hnode hnode' ⟨rfl, hrespells⟩
    obtain ⟨_, ⟨rfl⟩, hname⟩ := entityName?_of_resolve hnode
    refine ⟨rfl, ⟨hrespells, fun t ht => ?_⟩, ⟨s, hs, ?_, ?_⟩, s, hs, hname⟩
    · refine ⟨pointers_subset_of_resolve hnode ht, pointers_subset_of_resolve hnode' ?_⟩
      rwa [Value.pointers_of_respells hrespells]
    · rw [target?, hnode]
      rfl
    · rw [target?, hnode']
      rfl
  · have hq (s : String) : q ≠ .str s := by
      rintro rfl
      exact htext ⟨s, hp.alike.symm.of_scalar⟩
    rw [resolve_of_not_text fun s hs => htext ⟨s, hs⟩, resolve_of_not_text hq]
    exact .error _ _

theorem chase {r' : Role} (h : doc.Mirrors r doc') (hr : r.Refines r')
    (href : r'.field (.str "$ref") = .fixed) {unused unused' : List String}
    (hv : Copies doc doc' r' v w) (hrest : SameRest doc doc' unused unused') :
    Matches (Copies doc doc' r') (doc.chase unused v) (doc'.chase unused' w) := by
  -- What is left to the other chain may be longer, so that the first one carries the induction.
  induction hn : unused.length using Nat.strong_induction_on
    generalizing unused unused' v w with
  | _ n ih =>
      cases hv' : v.reference? with
      | none =>
          rw [Document.chase, hv', Document.chase, hv.reference?_eq_none href hv']
          exact .ok hv
      | some p =>
          obtain ⟨q, hq, hpoints⟩ := hv.exists_reference? href hv'
          by_cases htext : ∃ s, p = .str s
          · obtain ⟨s, rfl⟩ := htext
            obtain rfl := hpoints.str
            have hsame := hrest s (hpoints.text s rfl)
            by_cases hs : s ∈ unused
            · rw [chase_of_new hv' hs, chase_of_new hq (hsame.1 hs)]
              refine (h.resolve hpoints).bind ?_
              rintro ⟨name, node⟩ ⟨_, node'⟩ ⟨rfl, hnode, -⟩
              exact ih _ (hn ▸ length_without_lt hs) (hnode.mono hr) (hrest.without s) rfl
            · rw [chase_of_used hv' hs, chase_of_used hq fun hs' => hs (hsame.2 hs')]
              exact .ok hv
          · rw [doc.chase_of_not_text unused hv' fun s hs => htext ⟨s, hs⟩,
              doc'.chase_of_not_text unused' hq
                fun s hs => htext ⟨s, (hs ▸ hpoints.alike).symm.of_scalar⟩]
            exact .error _ _

/-- Chains of references that start alike end alike. -/
theorem settle {r' : Role} (h : doc.Mirrors r doc') (hr : r.Refines r')
    (href : r'.field (.str "$ref") = .fixed) (hv : Copies doc doc' r' v w) :
    Matches (Copies doc doc' r') (doc.settle v) (doc'.settle w) := by
  cases hv' : v.reference? with
  | none =>
      unfold Document.settle
      rw [hv', hv.reference?_eq_none href hv']
      exact .ok hv
  | some p =>
      obtain ⟨q, hq, hpoints⟩ := hv.exists_reference? href hv'
      by_cases htext : ∃ s, p = .str s
      · obtain ⟨s, rfl⟩ := htext
        obtain rfl := hpoints.str
        unfold Document.settle
        rw [hv', hq]
        refine h.chase hr href hv fun t ht => ?_
        simp [ht.1, ht.2]
      · cases hsettle : doc.settle v with
        | ok target => exact absurd (reference?_of_settle hsettle hv') htext
        | error fault =>
            cases hsettle' : doc'.settle w with
            | ok target =>
                obtain ⟨s, rfl⟩ := reference?_of_settle hsettle' hq
                exact absurd ⟨s, hpoints.alike.symm.of_scalar⟩ htext
            | error fault' => exact .error fault fault'

/-- Chains that start at nodes end at nodes. -/
theorem settle_node (h : doc.Mirrors r doc') (hv : Copies doc doc' .node v w) :
    Matches (Copies doc doc' .node) (doc.settle v) (doc'.settle w) :=
  h.settle h.role rfl hv

end Mirrors

end Document

namespace Schema

theorem typeName?_rename (ρ : Nat → Nat) (v : Value) :
    typeName? (v.rename ρ) = (typeName? v).map (Value.rename ρ) := by
  cases v with
  | seq items =>
      rw [Value.rename_seq, typeName?, typeName?, List.find?_map]
      simp only [Function.comp_def, Value.same_rename_left]
      cases items.find? fun t => !t.same (.str "null") with
      | none => rfl
      | some t =>
          simp only [Option.map_some, Value.isNull_rename]
          split <;> rfl
  | scalar s => cases s <;> simp [typeName?]
  | _ => simp [typeName?]

/-- The type that a schema declares by what stands under `type`. -/
def declared (type : Option Value) : Value :=
  match type with
  | none => .str "string"
  | some (.seq items) => (items.find? fun t => !t.same (.str "null")).getD (.str "string")
  | some type => .str type.text

theorem declaredType_eq (v : Value) : declaredType v = declared (v.get? "type") := rfl

theorem declared_rename (ρ : Nat → Nat) (type : Value) :
    declared (some (type.rename ρ)) = (declared (some type)).rename ρ := by
  unfold declared
  cases type with
  | seq items =>
      simp only [Value.rename_seq, List.find?_map, Function.comp_def, Value.same_rename_left]
      cases items.find? fun t => !t.same (.str "null") <;> simp
  | pair a b =>
      have htext := Value.text_rename ρ (.pair a b)
      rw [Value.rename_pair] at htext
      simp [htext]
  | map origin es =>
      have htext := Value.text_rename ρ (.map origin es)
      rw [Value.rename_map] at htext
      simp [htext]
  | _ => simp

section Types

variable {free : Role → Value → Bool}

/-- A type or `null` is read as the type. -/
theorem typeName?_of_orNull (h : Value.orNull v w) : typeName? w = typeName? v := by
  obtain ⟨type, htype, rfl, rfl | rfl⟩ := Value.orNull_iff.1 h
  · simp [typeName?, Value.same, htype, Value.isNull]
  · simp [typeName?, Value.same, htype, Value.isNull]

theorem declared_of_orNull (h : Value.orNull v w) : declared (some w) = declared (some v) := by
  obtain ⟨type, htype, rfl, rfl | rfl⟩ := Value.orNull_iff.1 h
  · simp [declared, Value.same, htype, Value.text, Scalar.text]
  · simp [declared, Value.same, htype, Value.text, Scalar.text]

theorem typeName?_rel (h : v.respells free r w) (hr : r.field (.str "type") = .fixed) :
    Option.Rel Alike (typeName? (v.get "type")) (typeName? (w.get "type")) := by
  rcases Value.get_type_respells h hr with halike | ⟨-, hnull⟩
  · exact halike.found? typeName?_rename
  · rw [typeName?_of_orNull hnull]
    cases typeName? (v.get "type") with
    | none => exact .none
    | some type => exact .some (Alike.refl type)

theorem alike_typeName (h : v.respells free r w) (hr : r.field (.str "type") = .fixed) :
    Alike ((typeName? (v.get "type")).getD .null) ((typeName? (w.get "type")).getD .null) := by
  have hrel := typeName?_rel h hr
  generalize typeName? (v.get "type") = type, typeName? (w.get "type") = type' at hrel
  cases hrel with
  | none => exact Alike.refl _
  | some ht => exact ht

theorem alike_declaredType (h : v.respells free r w) (hr : r.field (.str "type") = .fixed) :
    Alike (declaredType v) (declaredType w) := by
  have hrel := Value.get?_type_respells h hr
  rw [declaredType_eq, declaredType_eq]
  generalize v.get? "type" = x, w.get? "type" = y at hrel
  cases hrel with
  | none => exact Alike.refl _
  | some hab =>
      rcases hab with halike | ⟨-, hnull⟩
      · exact halike.found (f := fun type => declared (some type)) declared_rename
      · rw [declared_of_orNull hnull]

end Types

theorem isScalar_eq (hv : Copies doc doc' .node v w) : isScalar w = isScalar v := by
  have hhas {name : String} (hname : name ≠ "type") : w.has name = v.has name := by
    have hrel := hv.get? hname
    unfold Value.has
    generalize v.get? name = x, w.get? name = y at hrel
    cases hrel <;> rfl
  have htype := typeName?_rel hv.respells rfl
  unfold isScalar
  rw [hv.isMap, hhas (by decide : "properties" ≠ "type"), hhas (by decide : "allOf" ≠ "type")]
  generalize typeName? (v.get "type") = type, typeName? (w.get "type") = type' at htype
  cases htype with
  | none => rfl
  | some htype => simp only [isComposite, htype.same]

/-- How schemas type properties that are alike. -/
inductive Typing.Mirrored (doc doc' : Document) : Typing → Typing → Prop
  | unsupported : Mirrored doc doc' .unsupported .unsupported
  | plain {type format description items type' format' description' items' : Value}
      (ht : Alike type type') (hf : Alike format format') (hd : Alike description description')
      (hi : Alike items items') :
      Mirrored doc doc' (.plain type format description items)
        (.plain type' format' description' items')
  | entity {p q description description' : Value} (hp : Points doc doc' p q)
      (hd : Alike description description') :
      Mirrored doc doc' (.entity p description) (.entity q description')
  | entities {p q description description' : Value} (hp : Points doc doc' p q)
      (hd : Alike description description') :
      Mirrored doc doc' (.entities p description) (.entities q description')

theorem copies_referenceTo (hp : Points doc doc' p q) :
    Copies doc doc' r (referenceTo p) (referenceTo q) := by
  refine .of_alike ?_ fun s hs => ?_
  · have h := hp.alike
    unfold Alike Value.bare at h ⊢
    simp [referenceTo, h]
  · have hs : p = .str s ∨ s ∈ p.pointers := by
      rw [referenceTo, Value.pointers] at hs
      unfold Value.pointersOfEntries at hs
      cases p with
      | scalar k => cases k <;> simp_all [Value.pointers, Value.pointersOfEntries]
      | _ => simpa [Value.pointersOfEntries] using hs
    exact hs.elim (hp.text s) (hp.within s)

/-- A pointer leads to a scalar schema in both documents or in neither. -/
theorem scalarTarget?_matches (h : doc.Mirrors r doc') (hp : Points doc doc' p q) :
    Matches (Option.Rel (Copies doc doc' .node)) (scalarTarget? doc p) (scalarTarget? doc' q) := by
  refine (h.settle_node (copies_referenceTo hp)).map fun v w hvw => ?_
  rw [isScalar_eq hvw]
  split
  · exact .some hvw
  · exact .none

theorem Typing.ofItems_of_not_reference {items : Value} (hr : items.reference? = none)
    (description : Value) :
    ofItems doc items description = .ok (.plain (.str "array") .null description
      (((items.get "type").text?.map Value.str).getD .null)) := by
  unfold ofItems
  rw [hr]
  dsimp only
  cases items.get "type" with
  | scalar k => cases k <;> rfl
  | _ => rfl

/-- The type of items that are described in place is not free. -/
theorem alike_type_items (hv : Copies doc doc' .items v w) (hr : v.reference? = none) :
    Alike (v.get "type") (w.get "type") := by
  refine (Value.get_type_respells hv.respells rfl).resolve_right fun hown => ?_
  have hreads : v.isReference = true := hown.1
  rw [Value.isReference, hr] at hreads
  cases hreads

theorem Typing.ofItems_matches (h : doc.Mirrors r doc')
    {items items' description description' : Value}
    (hi : Copies doc doc' .items items items') (hd : Alike description description') :
    Matches (Mirrored doc doc') (ofItems doc items description)
      (ofItems doc' items' description') := by
  cases hr : items.reference? with
  | none =>
      rw [ofItems_of_not_reference hr, ofItems_of_not_reference (hi.reference?_eq_none rfl hr),
        (alike_type_items hi hr).text?]
      exact .ok (.plain (Alike.refl _) (Alike.refl _) hd (Alike.refl _))
  | some p =>
      obtain ⟨q, hq, hp⟩ := hi.exists_reference? rfl hr
      unfold ofItems
      rw [hr, hq]
      refine (scalarTarget?_matches h hp).bind fun target target' htarget => ?_
      cases htarget with
      | none => exact .ok (.entities hp hd)
      | some htarget =>
          exact .ok (.plain (Alike.refl _) (Alike.refl _) hd (alike_typeName htarget.respells rfl))

theorem Typing.ofSchema_matches (h : doc.Mirrors r doc') (hv : Copies doc doc' .property v w) :
    Matches (Mirrored doc doc') (ofSchema doc v) (ofSchema doc' w) := by
  unfold ofSchema
  have hd := (hv.get (by decide : "description" ≠ "type")).alike
  have hf := (hv.get (by decide : "format" ≠ "type")).alike
  cases hr : v.reference? with
  | none =>
      rw [hv.reference?_eq_none rfl hr]
      have hrel := typeName?_rel hv.respells rfl
      dsimp only
      generalize typeName? (v.get "type") = type, typeName? (w.get "type") = type' at hrel
      cases hrel with
      | none => exact .ok .unsupported
      | some htype =>
          dsimp only
          rw [htype.same]
          split
          · exact ofItems_matches h (hv.get (by decide : "items" ≠ "type")) hd
          · exact .ok (.plain htype hf hd (Alike.refl _))
  | some p =>
      obtain ⟨q, hq, hp⟩ := hv.exists_reference? rfl hr
      rw [hq]
      refine (scalarTarget?_matches h hp).bind fun target target' htarget => ?_
      cases htarget with
      | none => exact .ok (.entity hp hd)
      | some htarget =>
          exact .ok (.plain (alike_typeName htarget.respells rfl)
            (htarget.get (by decide : "format" ≠ "type")).alike
            (hd.orElse (htarget.get (by decide : "description" ≠ "type")).alike) (Alike.refl _))

/-- What schemas that are alike contribute. -/
inductive Contribution.Mirrored (doc doc' : Document) : Contribution → Contribution → Prop
  | property (name : Scalar) {v w : Value} (required : Bool) (h : Copies doc doc' .property v w) :
      Mirrored doc doc' (.property name v required) (.property name w required)
  | cycle (s : String) : Mirrored doc doc' (.cycle s) (.cycle s)
  | failure (fault fault' : Fault) : Mirrored doc doc' (.failure fault) (.failure fault')

theorem members_of_not_seq {a : Value} (h : v.get? "allOf" = some a)
    (ha : ∀ items, a ≠ .seq items) : members v = a.membersOrNone.map fun _ => [] := by
  unfold members
  rw [h]
  split
  · next heq => cases heq
  · next items heq => exact absurd (Option.some.inj heq) (ha items)
  · next a' _ heq => rw [Option.some.inj heq]

theorem members_matches (hv : Copies doc doc' .node v w) :
    Matches (List.Forall₂ (Copies doc doc' .node)) (members v) (members w) := by
  have hrel := hv.get? (by decide : "allOf" ≠ "type")
  cases hall : v.get? "allOf" with
  | none =>
      rw [hall] at hrel
      unfold members
      rw [hall, eq_none_of_rel hrel]
      exact .ok .nil
  | some a =>
      rw [hall] at hrel
      obtain ⟨b, hb, hab⟩ := exists_of_rel hrel
      have hab : Copies doc doc' (.list .node) a b := hab
      by_cases hseq : ∃ items, a = .seq items
      · obtain ⟨items, rfl⟩ := hseq
        obtain ⟨others, rfl, hitems⟩ := hab.exists_of_seq
        unfold members
        rw [hall, hb]
        exact .ok hitems
      · rw [members_of_not_seq hall fun items h => hseq ⟨items, h⟩, members_of_not_seq hb ?_]
        · exact hab.membersOrNone.map fun _ _ _ => .nil
        · rintro others rfl
          exact hseq (Value.exists_of_seq_respells hab.respells)

theorem ownProperties_mirrored (hv : Copies doc doc' .node v w) :
    List.Forall₂ (Contribution.Mirrored doc doc') (ownProperties v) (ownProperties w) := by
  have hrequired := (hv.get (by decide : "required" ≠ "type")).alike.orElse (Alike.refl (.seq []))
  have hproperties := Copies.entriesOrNone (hv.get (by decide : "properties" ≠ "type"))
  unfold ownProperties
  generalize (v.get "properties").entriesOrNone = x,
    (w.get "properties").entriesOrNone = y at hproperties
  cases hproperties with
  | error fault fault' => exact .cons (.failure fault fault') .nil
  | ok hes =>
      dsimp only
      rw [List.forall₂_map_left_iff, List.forall₂_map_right_iff]
      refine hes.imp fun e e' he => ?_
      obtain ⟨k, u⟩ := e
      obtain ⟨k', u'⟩ := e'
      obtain ⟨rfl, hu⟩ := he
      dsimp only
      rw [hrequired.contains (Alike.refl _)]
      split
      · exact .failure _ _
      · exact .property _ _ hu

/-- What schemas contribute that are alike, as long as the same pointers may be followed. -/
theorem contributions_mirrored (h : doc.Mirrors r doc') {unused unused' : List String}
    (hv : Copies doc doc' .node v w) (hrest : SameRest doc doc' unused unused') :
    List.Forall₂ (Contribution.Mirrored doc doc') (contributions doc unused v)
      (contributions doc' unused' w) := by
  refine contributions_induction doc
    (fun unused v cs => ∀ unused' w, Copies doc doc' .node v w → SameRest doc doc' unused unused' →
      List.Forall₂ (Contribution.Mirrored doc doc') cs (contributions doc' unused' w))
    (fun unused v cs => ∀ unused' w, Copies doc doc' .node v w → SameRest doc doc' unused unused' →
      List.Forall₂ (Contribution.Mirrored doc doc') cs (settledContributions doc' unused' w))
    ?noReference ?fault ?followed ?cycle ?notText ?noMembers ?parts ?noMap
    unused v unused' w hv hrest
  case noReference =>
    intro unused v hr ih unused' w hv hrest
    rw [contributions, hv.reference?_eq_none rfl hr]
    exact ih unused' w hv hrest
  case fault =>
    intro unused v s fault hr hs hsettle unused' w hv hrest
    obtain ⟨q, hq, hpoints⟩ := hv.exists_reference? rfl hr
    obtain rfl := hpoints.str
    have hs' := (hrest s (hpoints.text s rfl)).1 hs
    obtain ⟨fault', hsettle'⟩ := (h.settle_node hv).exists_of_error hsettle
    rw [contributions_of_fault hq hs' hsettle']
    exact .cons (.failure fault fault') .nil
  case followed =>
    intro unused v s target hr hs hsettle ih unused' w hv hrest
    obtain ⟨q, hq, hpoints⟩ := hv.exists_reference? rfl hr
    obtain rfl := hpoints.str
    have hs' := (hrest s (hpoints.text s rfl)).1 hs
    obtain ⟨target', hsettle', htarget⟩ := (h.settle_node hv).exists_of_ok hsettle
    rw [contributions_of_reference hq hs' hsettle']
    exact ih _ target' htarget (hrest.without s)
  case cycle =>
    intro unused v s hr hs unused' w hv hrest
    obtain ⟨q, hq, hpoints⟩ := hv.exists_reference? rfl hr
    obtain rfl := hpoints.str
    have hs' : s ∉ unused' := fun hs' => hs ((hrest s (hpoints.text s rfl)).2 hs')
    rw [contributions_of_used hq hs']
    exact .cons (.cycle s) .nil
  case notText =>
    -- Pointers that are no texts fail in both documents, for one of two reasons.
    intro unused v p hr htext unused' w hv _
    obtain ⟨q, hq, hpoints⟩ := hv.exists_reference? rfl hr
    rw [contributions_of_not_text doc' unused' hq
      fun s hs => htext s (hs ▸ hpoints.alike).symm.of_scalar]
    exact .cons (.failure _ _) .nil
  case noMembers =>
    intro unused v fault hm hms unused' w hv hrest
    obtain ⟨fault', hms'⟩ := (members_matches hv).exists_of_error hms
    rw [settledContributions_of_fault (hv.isMap.trans hm) hms']
    exact .cons (.failure fault fault') .nil
  case parts =>
    intro unused v ms hm hms ih unused' w hv hrest
    obtain ⟨ms', hms', hmembers⟩ := (members_matches hv).exists_of_ok hms
    rw [settledContributions_of_members (hv.isMap.trans hm) hms']
    refine List.rel_append ?_ (ownProperties_mirrored hv)
    exact List.rel_flatMap ((List.forall₂_and_left _ _).2 ⟨fun m hm => hm, hmembers⟩)
      fun m m' hm => ih m hm.1 unused' m' hm.2 hrest
  case noMap =>
    intro unused v hm unused' w hv hrest
    rw [settledContributions, if_neg (by rwa [hv.isMap])]
    exact .nil

/-- Schemas that are alike contribute the same. -/
theorem closure_mirrored (h : doc.Mirrors r doc') (hv : Copies doc doc' .node v w) :
    List.Forall₂ (Contribution.Mirrored doc doc') (closure doc v) (closure doc' w) :=
  contributions_mirrored h hv fun _ hs =>
    ⟨fun _ => List.mem_append_right _ hs.2, fun _ => List.mem_append_right _ hs.1⟩

end Schema

end OpenApiClient
