import OpenApiClient.Proofs.Binding
import OpenApiClient.Proofs.MirroredOperation

/-!
# Parameters of mirrored documents

A parameter keeps type, format, items and description as its description says them, origins
included.  Apart from these origins an operation and its copy have the same parameters: in the path
and in the query, since the chains that start at their nodes end at the same parameters, and in the
body, since the chains that start at its schemas end at copies.
-/

namespace OpenApiClient

open Walk

open Value (Alike)

open Document

variable {role : Role} {doc doc' : Document} {v w p q : Value}

theorem Fields.fill_matches {α β : Type} {R : α → β → Prop} {record : RecordKind}
    {issues issues' : List (Option Issue)} {a : α} {b : β} (hissues : issues' = issues)
    (h : R a b) : Matches R (fill record issues a) (fill record issues' b) := by
  subst hissues
  unfold fill
  split
  · exact .ok h
  · exact .error _ _

theorem Value.find?_rel {R : Value → Value → Prop} {es fs : Value.Entries}
    (h : List.Forall₂ (fun e f => f.1 = e.1 ∧ R e.2 f.2) es fs) (key : Scalar) :
    Option.Rel R (find? key es) (find? key fs) := by
  induction h with
  | nil => exact .none
  | @cons e f _ _ he _ ih =>
      obtain ⟨k, v⟩ := e
      obtain ⟨_, w⟩ := f
      obtain ⟨rfl, hvw⟩ := he
      rw [find?, find?]
      split
      · exact .some hvw
      · exact ih

theorem Value.contains_map_of_not_scalar {origin : Nat} {es : Value.Entries} {x : Value}
    (hx : ∀ k, x ≠ .scalar k) : (Value.map origin es).contains x =
      if x.isKey then .ok false else .error (.refused .notAKey) := by
  cases x with
  | scalar k => exact absurd rfl (hx k)
  | _ => rfl

namespace Document.Copies

theorem orElse {x y : Value} (h : Copies doc doc' role v w) (h' : Copies doc doc' role x y) :
    Copies doc doc' role (v.orElse x) (w.orElse y) := by
  unfold Value.orElse
  rw [Value.isFilled_of_respells h.respells]
  split
  · exact h
  · exact h'

theorem alike_of_not_map (h : Copies doc doc' (.entries role) v w) (hv : v.isMap = false) :
    Alike v w :=
  Value.alike_of_respells_of_ne h.respells hv (by simp)

theorem contains {x y : Value} (h : Copies doc doc' (.entries role) v w) (hx : Alike x y) :
    w.contains y = v.contains x := by
  cases v with
  | map origin es =>
      obtain ⟨_, fs, rfl, hes⟩ := h.exists_of_map fun _ => rfl
      have hfind (k : Scalar) : (Value.find? k fs).isSome = (Value.find? k es).isSome := by
        have hrel := Value.find?_rel (R := Copies doc doc' role) hes k
        generalize Value.find? k es = a, Value.find? k fs = b at hrel
        cases hrel <;> rfl
      by_cases hscalar : ∃ k, x = .scalar k
      · obtain ⟨k, rfl⟩ := hscalar
        rw [hx.of_scalar, Value.contains, Value.contains, hfind]
      · have hy (k : Scalar) : y ≠ .scalar k := by
          rintro rfl
          exact hscalar ⟨k, hx.symm.of_scalar⟩
        rw [Value.contains_map_of_not_scalar fun k hk => hscalar ⟨k, hk⟩,
          Value.contains_map_of_not_scalar hy, hx.isKey]
  | _ => exact (h.alike_of_not_map rfl).contains hx

theorem members (h : Copies doc doc' (.entries role) v w) :
    Matches (List.Forall₂ Alike) v.members w.members := by
  cases v with
  | map origin es =>
      obtain ⟨_, fs, rfl, hes⟩ := h.exists_of_map fun _ => rfl
      refine .ok ?_
      rw [List.forall₂_map_left_iff, List.forall₂_map_right_iff]
      exact hes.imp fun e f hef => by rw [hef.1]
  | _ => exact (h.alike_of_not_map rfl).members

theorem index {i j : Value} (h : Copies doc doc' (.entries role) v w) (hi : Alike i j) :
    Matches (Copies doc doc' role) (v.index i) (w.index j) := by
  cases v with
  | map origin es =>
      obtain ⟨_, fs, rfl, hes⟩ := h.exists_of_map fun _ => rfl
      cases i with
      | scalar k =>
          rw [hi.of_scalar, Value.index, Value.index]
          have hrel := Value.find?_rel (R := Copies doc doc' role) hes k
          generalize Value.find? k es = a, Value.find? k fs = b at hrel
          cases hrel with
          | none => exact .error _ _
          | some hab => exact .ok hab
      | _ =>
          cases j with
          | scalar k => cases hi.symm.of_scalar
          | _ => exact .error _ _
  | _ =>
      exact ((h.alike_of_not_map rfl).index hi).of_ok fun _ _ hx _ hxy => .of_alike hxy fun s hs =>
        h.within s (Value.pointers_subset_of_index hx hs)

end Document.Copies

theorem Document.SameParameter.get (h : doc.SameParameter doc' v w) (name : String)
    (hname : name ∈ ["name", "in", "required", "description"]) :
    Alike (v.get name) (w.get name) := by
  have hrel := h.field name hname
  unfold Value.get
  generalize v.get? name = x, w.get? name = y at hrel ⊢
  cases hrel with
  | none => exact Alike.refl _
  | some h => exact h

namespace Parameter

/-- The parameter with one origin for all mappings in what its description says. -/
def bare (p : Parameter) : Parameter :=
  { p with type := p.type.bare, format := p.format.bare, items := p.items.bare
           description := p.description.bare }

/-- `bare` of parameters by name. -/
def bareNamed (ps : List (String × Parameter)) : List (String × Parameter) :=
  ps.map (Prod.map id bare)

theorem bareNamed_byName (ps : List Parameter) :
    bareNamed (byName ps) = byName (ps.map bare) :=
  (byName_map (f := bare) (fun _ => rfl) ps).symm

theorem distinct_map {f : Parameter → Parameter} (hf : ∀ p, (f p).variableName = p.variableName)
    (ps : List Parameter) : distinct (ps.map f) = (distinct ps).map f :=
  firstsBy_map hf ps

section Operation

variable {r : Registry} {kind : ClassKind} {className : String} {o o' : Operation}

/-- Nodes whose chains end at the same parameter describe the same parameter. -/
theorem ofNode_matches (hv : Matches (doc.SameParameter doc') (doc.settle v) (doc'.settle w))
    (location : ParameterLocation) :
    Matches (fun p q => q.map bare = p.map bare) (ofNode doc r kind className location v)
      (ofNode doc' r kind className location w) := by
  unfold ofNode
  refine hv.bind fun settled settled' hsettled => ?_
  rw [hsettled.isMap, (hsettled.get "in" (by decide)).same]
  split
  · exact .ok rfl
  · have hname : ((settled'.get? "name").getD (.str "")).text =
        ((settled.get? "name").getD (.str "")).text := by
      have hrel := hsettled.field "name" (by decide)
      generalize settled.get? "name" = x, settled'.get? "name" = y at hrel ⊢
      cases hrel with
      | none => rfl
      | some h => exact h.text
    have hrequired := (hsettled.get "required" (by decide)).isFilled
    have hdescription := hsettled.get "description" (by decide)
    refine hsettled.schema.bind fun schema schema' hschema => ?_
    have htype := Schema.alike_declaredType hschema.respells rfl
    have hformat := (hschema.get (by decide : "format" ≠ "type")).alike
    dsimp only
    rw [hname, hrequired]
    refine (Fields.fill_matches (R := fun p q => q.bare = p.bare) ?_ ?_).map fun p q hpq =>
      congrArg some hpq
    · rw [Fields.text_eq htype, Fields.optionalText_eq hformat,
        Fields.optionalText_eq hdescription]
    · rw [Fields.plain_eq htype, Fields.plain_eq hformat, Fields.plain_eq hdescription]

theorem located_matches (ho : o.Mirrors doc doc' o') (location : ParameterLocation) :
    Matches (fun ps qs => qs.map bare = ps.map bare) (located doc r kind className location o)
      (located doc' r kind className location o') := by
  refine (Matches.mapM ho.parameters fun v w hv => ofNode_matches hv location).map ?_
  intro found found' hfound
  induction hfound with
  | nil => rfl
  | @cons p q _ _ hpq _ ih =>
      cases p <;> cases q <;> simp_all

theorem inPath_matches (ho : o.Mirrors doc doc' o') :
    Matches (fun ps qs => bareNamed qs = bareNamed ps) (inPath doc r kind className o)
      (inPath doc' r kind className o') := by
  refine (located_matches ho .path).map fun ps qs hpq => ?_
  rw [bareNamed_byName, bareNamed_byName, hpq]

theorem inQuery_matches (ho : o.Mirrors doc doc' o') :
    Matches (fun ps qs => bareNamed qs = bareNamed ps) (inQuery doc r kind className o)
      (inQuery doc' r kind className o') := by
  refine (located_matches ho .query).map fun ps qs hpq => ?_
  rw [bareNamed_byName, bareNamed_byName, ← requiredFirst_map (f := bare) fun _ => rfl,
    ← requiredFirst_map (f := bare) fun _ => rfl, hpq]

theorem contentType_matches (ho : o.Mirrors doc doc' o') :
    Matches (fun m m' => m' = m) (contentType o) (contentType o') := by
  refine ho.body.map fun media media' hmedia => ?_
  cases hmedia with
  | none => rfl
  | some h => exact h.1

theorem parallel_itemsOf (h : doc.Mirrors role doc') (hv : Copies doc doc' .node v w) :
    Parallel (Build.Mirrors doc doc') Alike (itemsOf doc v) (itemsOf doc' w) := by
  unfold itemsOf
  have hpointer := hv.reference? rfl
  generalize v.reference? = pointer, w.reference? = pointer' at hpointer
  cases hpointer with
  | none =>
      dsimp only
      rw [hv.isMap]
      split
      · exact Parallel.pure (Schema.alike_declaredType hv.respells rfl)
      · exact Parallel.pure (Alike.refl _)
  | some hp =>
      refine (Parallel.lift (Schema.scalarTarget?_matches h hp)).bind fun node node' hnode => ?_
      cases hnode with
      | none =>
          refine (Building.parallel_ofPointer h hp).bind fun type type' htype => ?_
          subst htype
          exact Parallel.pure (Alike.refl _)
      | some hnode => exact Parallel.pure (Schema.alike_declaredType hnode.respells rfl)

theorem parallel_ofField (h : doc.Mirrors role doc') (hv : Copies doc doc' .node v w)
    (name : String) (required : Bool) :
    Parallel (Build.Mirrors doc doc') (fun p q => q.bare = p.bare) (ofField doc name v required)
      (ofField doc' name w required) := by
  unfold ofField
  dsimp only
  rw [hv.isMap]
  split
  · exact Parallel.pure rfl
  · have hdescription := (hv.get (by decide : "description" ≠ "type")).alike
    have hpointer := hv.reference? rfl
    generalize v.reference? = pointer, w.reference? = pointer' at hpointer
    cases hpointer with
    | none =>
        have htype := Schema.alike_declaredType hv.respells rfl
        have hformat := (hv.get (by decide : "format" ≠ "type")).alike
        dsimp only
        rw [htype.same]
        split
        · refine (parallel_itemsOf h (hv.get (by decide : "items" ≠ "type"))).bind
            fun items items' hitems => Parallel.pure ?_
          unfold bare
          rw [show _ = _ from htype, show _ = _ from hitems, show _ = _ from hdescription]
        · refine Parallel.pure ?_
          unfold bare
          rw [show _ = _ from htype, show _ = _ from hformat, show _ = _ from hdescription]
    | some hp =>
        refine (Parallel.lift (Schema.scalarTarget?_matches h hp)).bind fun node node' hnode => ?_
        cases hnode with
        | none =>
            refine (Building.parallel_ofPointer h hp).bind fun type type' htype => ?_
            subst htype
            refine Parallel.pure ?_
            unfold bare
            rw [show _ = _ from hdescription]
        | some hnode =>
            have hformat := (hnode.get (by decide : "format" ≠ "type")).alike
            have hbeside := (hnode.get (by decide : "description" ≠ "type")).alike
            refine Parallel.pure ?_
            unfold bare
            rw [show _ = _ from Schema.alike_declaredType hnode.respells rfl,
              show _ = _ from hformat, show _ = _ from hdescription.orElse hbeside]

theorem fieldNames_matches {properties properties' required required' : Value}
    (hp : Copies doc doc' (.entries role) properties properties') (hr : Alike required required') :
    Matches (fun x y => List.Forall₂ Alike x.1 y.1 ∧ List.Forall₂ Alike x.2 y.2)
      (fieldNames properties required) (fieldNames properties' required') := by
  refine hr.membersOrNone.bind fun names names' hnames => ?_
  refine (Matches.filterM hnames fun a b hab => matches_of_eq (hp.contains hab)).bind ?_
  intro first first' hfirst
  refine hp.members.bind fun members members' hmembers => .ok ⟨hfirst, ?_⟩
  refine List.rel_filter (fun a b hab => ?_) hmembers
  have hsame : first'.any (·.same b) = first.any (·.same a) :=
    any_eq_of_forall₂ hfirst fun _ _ hn => hn.same_of_alike hab
  dsimp only
  rw [hsame]

theorem parallel_inBody (h : doc.Mirrors role doc') (ho : o.Mirrors doc doc' o') :
    Parallel (Build.Mirrors doc doc') (fun ps qs => bareNamed qs = bareNamed ps) (inBody doc o)
      (inBody doc' o') := by
  unfold inBody
  refine (Parallel.lift ho.body).bind fun media media' hmedia => ?_
  cases hmedia with
  | none => exact Parallel.pure rfl
  | @some m m' hm =>
      obtain ⟨mediaType, schema⟩ := m
      obtain ⟨mediaType', schema'⟩ := m'
      refine (Parallel.lift hm.2).bind fun settled settled' hsettled => ?_
      rw [hsettled.isMap]
      split
      · exact Parallel.pure rfl
      · have hproperties : Copies doc doc' (.entries .node)
            ((settled.get "properties").orElse (.map 0 []))
            ((settled'.get "properties").orElse (.map 0 [])) :=
          Copies.orElse (hsettled.get (by decide : "properties" ≠ "type"))
            (.of_alike (Alike.refl _) (by simp [Value.pointers, Value.pointersOfEntries]))
        have hrequired := (hsettled.get (by decide : "required" ≠ "type")).alike
        refine (Parallel.lift (fieldNames_matches hproperties hrequired)).bind ?_
        rintro ⟨first, rest⟩ ⟨first', rest'⟩ ⟨hfirst, hrest⟩
        refine (Parallel.mapM (T := fun p q => q.bare = p.bare)
          (List.rel_append hfirst hrest) fun name name' hname => ?_).bind ?_
        · refine (Parallel.lift (hproperties.index hname)).bind fun field field' hfield => ?_
          cases name with
          | scalar k =>
              obtain rfl := hname.of_scalar
              cases k with
              | str name =>
                  dsimp only
                  rw [any_eq_of_forall₂ hfirst fun _ _ hn => hn.same (.str name)]
                  exact parallel_ofField h hfield name _
              | _ => exact Parallel.throw _ _
          | _ =>
              cases name' with
              | scalar k => cases hname.symm.of_scalar
              | _ => exact Parallel.throw _ _
        · intro fields fields' hfields
          refine Parallel.pure ?_
          rw [bareNamed_byName, bareNamed_byName, map_eq_of_forall₂ (fun _ _ h => h) hfields]

theorem parallel_ofMethod (h : doc.Mirrors role doc') (ho : o.Mirrors doc doc' o') :
    Parallel (Build.Mirrors doc doc') (fun ps qs => qs.map bare = ps.map bare)
      (ofMethod doc kind className o) (ofMethod doc' kind className o') := by
  unfold ofMethod
  refine Building.parallel_registry.bind fun r _ hr => ?_
  subst hr
  refine (Parallel.lift (inPath_matches ho)).bind fun path path' hpath => ?_
  refine (Parallel.lift (inQuery_matches ho)).bind fun query query' hquery => ?_
  refine (parallel_inBody h ho).bind fun body body' hbody => Parallel.pure ?_
  have hall : ((path' ++ query' ++ body').map (·.2)).map bare =
      ((path ++ query ++ body).map (·.2)).map bare := by
    have hnamed (ps : List (String × Parameter)) :
        (ps.map (·.2)).map bare = (bareNamed ps).map (·.2) := by
      unfold bareNamed
      rw [List.map_map, List.map_map]
      rfl
    have happend (ps qs : List (String × Parameter)) :
        bareNamed (ps ++ qs) = bareNamed ps ++ bareNamed qs := List.map_append
    rw [hnamed, hnamed, happend, happend, happend, happend, hpath, hquery, hbody]
  generalize (path' ++ query' ++ body').map (·.2) = all',
    (path ++ query ++ body).map (·.2) = all at hall
  have hfilter (ps : List Parameter) :
      (ps.filter (·.isArgument)).map bare = (ps.map bare).filter (·.isArgument) := by
    rw [List.filter_map]
    rfl
  rw [← requiredFirst_map (f := bare) fun _ => rfl, ← requiredFirst_map (f := bare) fun _ => rfl,
    ← distinct_map (f := bare) fun _ => rfl, ← distinct_map (f := bare) fun _ => rfl]
  refine congrArg (fun ps => requiredFirst (distinct ps)) ?_
  split
  · rw [hfilter, hfilter, hall]
  · exact hall

end Operation

end Parameter

end OpenApiClient
