import OpenApiClient.Proofs.Buckets
import OpenApiClient.Proofs.Mirror

/-!
# Entities made of mirrored documents

Entities are made of both documents side by side.  Their registries are equal throughout, and the
same pointers lead to the schemas that the two walks have used up.  The rooms of the two differ,
since the other document may have more names; but they hold each name that the walk may come to
equally often.
-/

namespace OpenApiClient

open Walk

open Value (Alike)

open Document

variable {r : Role} {doc doc' : Document} {v w p q : Value}

namespace Fields

theorem reading_rename (ρ : Nat → Nat) (v : Value) : reading (v.rename ρ) = reading v := by
  cases v <;> simp [reading]

theorem reading_eq (h : Alike v w) : reading w = reading v := h.eq reading_rename

theorem textOf?_eq (h : Alike v w) : textOf? w = textOf? v := by
  rw [textOf?, textOf?, reading_eq h]

theorem textOf_eq (h : Alike v w) : textOf w = textOf v := by
  rw [textOf, textOf, textOf?_eq h]

theorem plain_eq (h : Alike v w) : plain w = plain v := by
  rw [plain, plain, textOf?_eq h]

theorem text_eq (h : Alike v w) (field : String) : text field w = text field v := by
  rw [text, text, reading_eq h]

theorem optionalText_eq (h : Alike v w) (field : String) :
    optionalText field w = optionalText field v := by
  unfold optionalText
  rw [h.isNull, text_eq h]

end Fields

theorem Property.ofValues_eq
    {type format description items type' format' description' items' : Value}
    (required : Bool) (name : Value) (ht : Alike type type') (hf : Alike format format')
    (hd : Alike description description') (hi : Alike items items') :
    ofValues required name type' format' description' items' =
      ofValues required name type format description items := by
  unfold ofValues
  rw [Fields.text_eq ht, Fields.optionalText_eq hf, Fields.optionalText_eq hd,
    Fields.optionalText_eq hi, Fields.textOf_eq ht, Fields.textOf?_eq hf, Fields.textOf?_eq hd,
    Fields.textOf?_eq hi]

/-- The registries are equal, and the same schemas are used up. -/
structure Build.Mirrors (doc doc' : Document) (b b' : Build) : Prop where
  registry : b'.registry = b.registry
  completed : List.Forall₂ (fun used used' => used'.1 = used.1 ∧ Twins doc doc' used.2 used'.2)
    b.completed b'.completed

/-- A schema is used up exactly if its copy is. -/
theorem Build.Mirrors.contains_completed {b b' : Build} (h : doc.Mirrors r doc')
    (hb : Build.Mirrors doc doc' b b') (name : String) (hvw : Twins doc doc' v w) :
    b'.completed.contains (name, w) = b.completed.contains (name, v) := by
  obtain ⟨s, hs, hv, hw⟩ := hvw
  have hiff {x y : Value} (hxy : Twins doc doc' x y) : v = x ↔ w = y := by
    obtain ⟨t, ht, hx, hy⟩ := hxy
    have hsame := h.apart s t hs.1 ht.1
    rwa [hv, hw, hx, hy, Option.some.injEq, Option.some.injEq] at hsame
  have hcompleted := hb.completed
  generalize b.completed = used, b'.completed = used' at hcompleted
  induction hcompleted with
  | nil => rfl
  | @cons e e' _ _ he _ ih =>
      obtain ⟨n, x⟩ := e
      obtain ⟨_, y⟩ := e'
      obtain ⟨rfl, hxy⟩ := he
      rw [List.contains_cons, List.contains_cons, ih]
      refine congrArg (· || _) ?_
      rw [Bool.eq_iff_iff, beq_iff_eq, beq_iff_eq, Prod.mk.injEq, Prod.mk.injEq, hiff hxy]

namespace Building

theorem parallel_note (level level' : Level) (origin origin' message message' : String) :
    Parallel (Build.Mirrors doc doc') (fun _ _ => True) (note level origin message)
      (note level' origin' message') :=
  Parallel.modify fun _ _ h => ⟨h.registry, h.completed⟩

theorem parallel_registry :
    Parallel (Build.Mirrors doc doc') (fun r r' => r' = r) registry registry :=
  Parallel.get.bind fun _ _ h => Parallel.pure h.registry

theorem parallel_modifyRegistry (f : Registry → Registry) :
    Parallel (Build.Mirrors doc doc') (fun _ _ => True) (modifyRegistry f) (modifyRegistry f) :=
  Parallel.modify fun _ _ h => ⟨congrArg f h.registry, h.completed⟩

theorem parallel_register (name : String) :
    Parallel (Build.Mirrors doc doc') (fun _ _ => True) (register name) (register name) := by
  refine parallel_registry.bind fun r r' hr => ?_
  subst hr
  split
  · exact Parallel.pure trivial
  · exact (parallel_modifyRegistry _).bind fun _ _ _ => parallel_note _ _ _ _ _ _

/-- Entities are extended alike by what schemas contribute that are alike, if what is referred to is
made alike. -/
theorem parallel_extend {refer refer' : Value → Building String}
    (hrefer : ∀ p q, Points doc doc' p q →
      Parallel (Build.Mirrors doc doc') (fun t t' => t' = t) (refer p) (refer' q))
    (h : doc.Mirrors r doc') (entity : String) {c c' : Schema.Contribution}
    (hc : c.Mirrored doc doc' c') :
    Parallel (Build.Mirrors doc doc') (fun _ _ => True) (extend refer doc entity c)
      (extend refer' doc' entity c') := by
  have hproperty (name : Scalar) (required : Bool) {t f d i t' f' d' i' : Value} (ht : Alike t t')
      (hf : Alike f f') (hd : Alike d d') (hi : Alike i i') :
      Parallel (Build.Mirrors doc doc') (fun _ _ => True) (do
        let property ← liftM (Property.ofValues required (Value.scalar name) t f d i)
        modifyRegistry fun r => r.modify entity fun e => e.addProperty property) (do
        let property ← liftM (Property.ofValues required (Value.scalar name) t' f' d' i')
        modifyRegistry fun r => r.modify entity fun e => e.addProperty property) := by
    refine (Parallel.lift (matches_of_eq (Property.ofValues_eq required _ ht hf hd hi))).bind ?_
    rintro property _ rfl
    exact parallel_modifyRegistry _
  cases hc with
  | failure fault fault' => exact Parallel.throw fault fault'
  | cycle s => exact parallel_note _ _ _ _ _ _
  | @property name v w required hv =>
      unfold extend
      dsimp only
      rw [hv.isMap]
      split
      · exact Parallel.pure trivial
      · refine (Parallel.lift (Schema.Typing.ofSchema_matches h hv)).bind ?_
        intro typing typing' htyping
        cases htyping with
        | unsupported => exact (parallel_note _ _ _ _ _ _).bind fun _ _ _ => Parallel.pure trivial
        | plain ht hf hd hi => exact hproperty name required ht hf hd hi
        | entity hp hd =>
            refine (hrefer _ _ hp).bind fun t t' htarget => ?_
            subst htarget
            refine (parallel_modifyRegistry _).bind fun _ _ _ => ?_
            exact hproperty name required (Alike.refl _) (Alike.refl _) hd (Alike.refl _)
        | entities hp hd =>
            refine (hrefer _ _ hp).bind fun t t' htarget => ?_
            subst htarget
            refine (parallel_modifyRegistry _).bind fun _ _ _ => ?_
            exact hproperty name required (Alike.refl _) (Alike.refl _) hd (Alike.refl _)

/-- Two rooms hold the names that both documents may come to equally often. -/
def SameRoom (doc doc' : Document) (room room' : List String) : Prop :=
  ∀ s, Shares doc doc' s → ∀ name, entityName? s = some name → room.count name = room'.count name

theorem count_erase_eq {room room' : List String} {n name : String}
    (h : room.count n = room'.count n) :
    (room.erase name).count n = (room'.erase name).count n := by
  rw [List.count_erase, List.count_erase, h]

theorem count_roomFor {n name : String}
    (h : n = name ∨ ∃ s ∈ doc.reach v, entityName? s = some n) :
    (roomFor doc name v).count n = expansions := by
  have hcount (l : List String) (hnodup : l.Nodup) (hn : n ∈ l) :
      (l.flatMap (List.replicate expansions)).count n = expansions := by
    induction l with
    | nil => cases hn
    | cons m l ih =>
        obtain ⟨hm, hl⟩ := List.nodup_cons.1 hnodup
        rw [List.flatMap_cons, List.count_append, List.count_replicate]
        by_cases heq : m = n
        · subst heq
          have hrest : m ∉ l.flatMap (List.replicate expansions) := by
            simpa [expansions] using hm
          simp [List.count_eq_zero_of_not_mem hrest]
        · rw [ih hl ((List.mem_cons.1 hn).resolve_left fun h => heq h.symm)]
          simp [heq]
  refine hcount _ (nodup_eraseDups _) ?_
  · rw [List.mem_eraseDups, List.mem_cons]
    refine h.imp_right fun hother => ?_
    obtain ⟨s, hs, hname⟩ := hother
    exact List.mem_filterMap.2 ⟨s, hs, hname⟩

/-- The same entities are made of a schema and of its copy. -/
theorem parallel_materialize (h : doc.Mirrors r doc') {room room' ancestry : List String}
    {name : String} (hv : Copies doc doc' .node v w) (htwins : Twins doc doc' v w)
    (hroom : SameRoom doc doc' room room') (hname : room.count name = room'.count name) :
    Parallel (Build.Mirrors doc doc') (fun _ _ => True) (materialize doc room ancestry name v)
      (materialize doc' room' ancestry name w) := by
  induction room, ancestry, name, v using materialize.induct generalizing room' w with
  | case1 room ancestry name v hin ih =>
      have hin' : name ∈ room' := by
        rwa [← List.count_pos_iff, ← hname, List.count_pos_iff]
      rw [materialize, dif_pos hin, materialize, dif_pos hin']
      refine (parallel_register name).bind fun _ _ _ => Parallel.get.bind fun b b' hb => ?_
      rw [hb.contains_completed h name htwins]
      split
      · exact Parallel.pure trivial
      · refine (Parallel.forIn (Schema.closure_mirrored h hv) fun c c' hc => ?_).bind
          fun _ _ _ => ?_
        -- What is referred to is made in rooms from which the same name has been taken.
        · refine (parallel_extend (fun p q hpq => ?_) h name hc).bind fun _ _ _ =>
            Parallel.pure ⟨rfl, rfl⟩
          refine (Parallel.lift (h.resolve hpq)).bind ?_
          rintro ⟨_, node⟩ ⟨segment, node'⟩ ⟨rfl, hnode, htwins, s, hs, hsegment⟩
          refine (ih segment node (hnode.mono h.role) htwins ?_ ?_).bind fun _ _ _ =>
            Parallel.pure rfl
          · exact fun s hs n hn => count_erase_eq (hroom s hs n hn)
          · exact count_erase_eq (hroom s hs _ hsegment)
        · exact Parallel.modify fun b b' hb =>
            ⟨hb.registry, .cons ⟨rfl, htwins⟩ hb.completed⟩
  | case2 room ancestry name v hout =>
      have hout' : name ∉ room' := by
        rwa [← List.count_pos_iff, ← hname, List.count_pos_iff]
      rw [materialize, dif_neg hout, materialize, dif_neg hout']
      exact parallel_note _ _ _ _ _ _

/-- The same entity is made of what a pointer leads to in both documents. -/
theorem parallel_ofPointer (h : doc.Mirrors r doc') (hp : Points doc doc' p q) :
    Parallel (Build.Mirrors doc doc') (fun t t' => t' = t) (ofPointer doc p [])
      (ofPointer doc' q []) := by
  refine (Parallel.lift (h.resolve hp)).bind ?_
  rintro ⟨_, node⟩ ⟨segment, node'⟩ ⟨rfl, hnode, htwins, -⟩
  refine (parallel_materialize h (hnode.mono h.role) htwins ?_ ?_).bind fun _ _ _ =>
    Parallel.pure rfl
  · intro s hs n hn
    exact (count_roomFor (.inr ⟨s, List.mem_append_right _ hs.1, hn⟩)).trans
      (count_roomFor (.inr ⟨s, List.mem_append_right _ hs.2, hn⟩)).symm
  · exact (count_roomFor (.inl rfl)).trans (count_roomFor (.inl rfl)).symm

end Building

end OpenApiClient
