import OpenApiClient.Parameter.Extraction
import OpenApiClient.Proofs.Growth

/-!
# Where the values of parameters come from

Path and query parameters are bound by the registry as it stands when they are looked at.  Two
looks at one operation therefore differ in nothing but the bindings, and as registries only
grow, a later look may bind what an earlier one left to the caller, never the other way round.
-/

namespace OpenApiClient

open Walk

namespace Source

variable {r r' : Registry} {e e' : Entity} {className name : String}

/-- What the word of a name says is never that the caller gives the value. -/
theorem ofWord?_ne_argument {word : String} :
    ofWord? r e className word ≠ some .argument := by
  unfold ofWord?
  split
  · simp
  · split <;> simp

/-- What the word of a name says may change, but it keeps saying something. -/
theorem isSome_ofWord?_of_grows (he : e.Grows e') {word : String}
    (h : (ofWord? r e className word).isSome = true) :
    (ofWord? r' e' className word).isSome = true := by
  unfold ofWord? at h ⊢
  cases hp : propertyOfKey? e' (Name.key word) with
  | some p => rfl
  | none =>
      have hnone : propertyOfKey? e (Name.key word) = none := by
        cases hold : propertyOfKey? e (Name.key word) with
        | none => rfl
        | some q => exact absurd (find?_eq_of_begins he.properties hold) (by
            rw [show e'.properties.find? _ = none from hp]; simp)
      rw [hnone] at h
      dsimp only at h ⊢
      split at h
      · next hid =>
          rw [Bool.and_eq_true] at hid
          rw [if_pos (Bool.and_eq_true_iff.2 ⟨hid.1, he.hasProperty hid.2⟩)]
          rfl
      · simp at h

/-- A value that the caller has to give, the caller had to give before. -/
theorem bind_eq_argument_of_grows {owner owner' : Option Entity}
    (ho : ∀ e, owner = some e → ∃ e', owner' = some e' ∧ e.Grows e')
    (h : bind r' className owner' name = .argument) :
    bind r className owner name = .argument := by
  cases owner with
  | none => rfl
  | some e =>
      obtain ⟨e', rfl, he⟩ := ho e rfl
      unfold bind at h ⊢
      dsimp only at h ⊢
      -- Whatever bound the name before binds it still.
      cases hw : (Name.idWord? name).bind (ofWord? r e className) with
      | some source =>
          obtain ⟨word, hword, hs⟩ := Option.bind_eq_some_iff.1 hw
          have hsome : (ofWord? r' e' className word).isSome = true := isSome_ofWord?_of_grows he
            (Option.isSome_iff_exists.2 ⟨source, hs⟩)
          obtain ⟨source', hs'⟩ := Option.isSome_iff_exists.1 hsome
          rw [hword, Option.bind_some, hs'] at h
          exact absurd (hs'.trans (congrArg some h)) ofWord?_ne_argument
      | none =>
          cases hp : propertyOfKey? e (Name.key name) with
          | none => rfl
          | some p =>
              have hp' : propertyOfKey? e' (Name.key name) = some p :=
                find?_eq_of_begins he.properties hp
              rw [hp'] at h
              cases hw' : (Name.idWord? name).bind (ofWord? r' e' className) with
              | none =>
                  rw [hw'] at h
                  cases h
              | some source =>
                  rw [hw'] at h
                  obtain ⟨word, -, hs⟩ := Option.bind_eq_some_iff.1 hw'
                  exact absurd (hs.trans (congrArg some h)) ofWord?_ne_argument

end Source

namespace Parameter

variable {doc : Document} {r r' : Registry} {kind : ClassKind} {className : String}

def rebind (r : Registry) (kind : ClassKind) (className : String) (p : Parameter) : Parameter :=
  { p with source := Source.bind r className (owner? r kind className) p.name }

/-- What a later registry leaves to the caller, an earlier one left to the caller. -/
theorem isArgument_rebind_of_grows (hg : r.Grows r') {p : Parameter}
    (h : (rebind r' kind className p).isArgument = true) :
    (rebind r kind className p).isArgument = true := by
  have hsource := of_decide_eq_true h
  refine decide_eq_true (Source.bind_eq_argument_of_grows (fun e he => ?_) hsource)
  cases kind with
  | manager => cases he
  | resource => exact hg.get? he

theorem isArgument_rebind_manager (p : Parameter) :
    (rebind r .manager className p).isArgument = true := by
  simp [isArgument, rebind, owner?]

/-- A node describes one parameter for all registries, except for its binding. -/
theorem ofNode_rebind (r r' : Registry) (location : ParameterLocation) (node : Value) :
    ofNode doc r' kind className location node =
      (ofNode doc r kind className location node).map (Option.map (rebind r' kind className)) := by
  unfold ofNode
  cases doc.settle node with
  | error f => rfl
  | ok settled =>
      change (if _ then _ else _) = Except.map _ (if _ then _ else _)
      split
      · rfl
      · cases hs : doc.settle (settled.get "schema") with
        | error f => rfl
        | ok schema =>
            change some <$> Fields.fill _ _ _ = Except.map _ (some <$> Fields.fill _ _ _)
            unfold Fields.fill
            split <;> rfl

theorem located_rebind (r r' : Registry) (location : ParameterLocation) (o : Operation) :
    located doc r' kind className location o =
      (located doc r kind className location o).map (List.map (rebind r' kind className)) := by
  have hmapM : ∀ nodes : List Value, nodes.mapM (ofNode doc r' kind className location) =
      (nodes.mapM (ofNode doc r kind className location)).map
        (List.map (Option.map (rebind r' kind className))) := by
    intro nodes
    induction nodes with
    | nil => rfl
    | cons node rest ih =>
        rw [List.mapM_cons, List.mapM_cons, ih, ofNode_rebind r r']
        cases ofNode doc r kind className location node with
        | error f => rfl
        | ok p =>
            cases rest.mapM (ofNode doc r kind className location) with
            | error f => rfl
            | ok ps => rfl
  unfold located
  rw [hmapM]
  cases o.parameters.mapM (ofNode doc r kind className location) with
  | error f => rfl
  | ok ps =>
      refine congrArg Except.ok ?_
      dsimp only
      rw [List.filterMap_map, List.map_filterMap]
      rfl

theorem insert_map {f : Parameter → Parameter} (hf : ∀ p, (f p).name = p.name) (p : Parameter)
    (ps : List (String × Parameter)) :
    insert (f p) (ps.map (Prod.map id f)) = (insert p ps).map (Prod.map id f) := by
  induction ps with
  | nil => simp [insert, hf]
  | cons q rest ih =>
      obtain ⟨k, q⟩ := q
      by_cases hk : k = p.name
      · simp [insert, hf, hk]
      · simp [insert, hf, hk, ih]

theorem byName_map {f : Parameter → Parameter} (hf : ∀ p, (f p).name = p.name)
    (ps : List Parameter) : byName (ps.map f) = (byName ps).map (Prod.map id f) := by
  induction ps using List.reverseRecOn with
  | nil => rfl
  | append_singleton ps p ih =>
      unfold byName at ih ⊢
      rw [List.map_append, List.foldl_append, List.foldl_append, ih]
      exact insert_map hf p _

theorem requiredFirst_map {f : Parameter → Parameter} (hf : ∀ p, (f p).required = p.required)
    (ps : List Parameter) : requiredFirst (ps.map f) = (requiredFirst ps).map f := by
  unfold requiredFirst
  rw [List.filter_map, List.filter_map, List.map_append]
  have h₁ : ((·.required) ∘ f) = fun p : Parameter => p.required := funext hf
  have h₂ : ((fun p : Parameter => !p.required) ∘ f) = fun p => !p.required := by
    funext p
    simp [hf]
  rw [h₁, h₂]

theorem inPath_rebind (r r' : Registry) (o : Operation) :
    inPath doc r' kind className o =
      (inPath doc r kind className o).map (List.map (Prod.map id (rebind r' kind className))) := by
  unfold inPath
  rw [located_rebind r r']
  cases located doc r kind className .path o with
  | error f => rfl
  | ok ps => exact congrArg Except.ok (byName_map (f := rebind r' kind className) (fun _ => rfl) ps)

theorem inQuery_rebind (r r' : Registry) (o : Operation) :
    inQuery doc r' kind className o =
      (inQuery doc r kind className o).map
        (List.map (Prod.map id (rebind r' kind className))) := by
  unfold inQuery
  rw [located_rebind r r']
  cases located doc r kind className .query o with
  | error f => rfl
  | ok ps =>
      refine congrArg Except.ok ?_
      dsimp only
      rw [requiredFirst_map (f := rebind r' kind className) fun _ => rfl]
      exact byName_map (f := rebind r' kind className) (fun _ => rfl) _

end Parameter

end OpenApiClient
