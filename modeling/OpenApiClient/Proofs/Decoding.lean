import OpenApiClient.Proofs.Evaluation
import OpenApiClient.Proofs.Shape

/-!
# Response expressions decode response bodies

A body that conforms to an entity has the required properties, an object where an entity
belongs and a list of objects where a list of entities belongs.  The graph of objects for such
a body is read off the body itself.  Expressions say nothing of the body but paths from the
variable of their scope; evaluated on a body that conforms, they never get stuck and build just
this graph.
-/

namespace OpenApiClient

/-- The graph of objects for the object of a type, inside the types that are being built: an
argument for every property, null where there is no value and where the type of the property is
being built further outside. -/
def graph (r : Registry) (ancestry : List String) (type : String) (v : Value) : Built :=
  .object type ((r.propertiesOf type).map fun p =>
    match _h : v.get? p.name with
    | none => .null
    | some w =>
      if w.isNull then .null
      else match r.shape p with
        | .plain => .value w
        | .entity inner =>
          if inner ∈ ancestry ++ [type] then .null else graph r (ancestry ++ [type]) inner w
        | .entities inner =>
          if inner ∈ ancestry ++ [type] then .null
          else match _hw : w with
            | .seq items => .list (items.attach.map fun ⟨x, _⟩ =>
              graph r (ancestry ++ [type]) inner x)
            | _ => .null)
termination_by v
decreasing_by
  · exact Value.sizeOf_lt_of_get? _h
  · have h₁ := Value.sizeOf_lt_of_get? _h
    have h₂ := List.sizeOf_lt_of_mem ‹x ∈ items›
    simp only [Value.seq.sizeOf_spec] at h₁
    omega

/-- A value conforms to a type, inside the types that are being built. -/
inductive Conforms (r : Registry) : List String → String → Value → Prop
  | object {ancestry : List String} {type : String} {v : Value} (hv : v.isMap = true)
      (required : ∀ p ∈ r.propertiesOf type, p.required = true →
        ∃ w, v.get? p.name = some w ∧ w.isNull = false)
      (entity : ∀ p ∈ r.propertiesOf type, ∀ inner w, r.shape p = .entity inner →
        inner ∉ ancestry ++ [type] → v.get? p.name = some w → w.isNull = false →
        Conforms r (ancestry ++ [type]) inner w)
      (list : ∀ p ∈ r.propertiesOf type, ∀ inner w, r.shape p = .entities inner →
        inner ∉ ancestry ++ [type] → v.get? p.name = some w → w.isNull = false →
        ∃ items, w = .seq items)
      (items : ∀ p ∈ r.propertiesOf type, ∀ inner xs x, r.shape p = .entities inner →
        inner ∉ ancestry ++ [type] → v.get? p.name = some (.seq xs) → x ∈ xs →
        Conforms r (ancestry ++ [type]) inner x) :
      Conforms r ancestry type v

/-- The argument for a property, given its value if there is one. -/
def argument (r : Registry) (ancestry : List String) (p : Property) (v : Option Value) : Built :=
  v.elim .null fun w =>
    if w.isNull then .null
    else match r.shape p with
      | .plain => .value w
      | .entity inner => if inner ∈ ancestry then .null else graph r ancestry inner w
      | .entities inner =>
        if inner ∈ ancestry then .null
        else match w with
          | .seq items => .list (items.map (graph r ancestry inner))
          | _ => .null

/-- A type that is being built further outside is left null, whatever there is. -/
theorem argument_of_mem {r : Registry} {ancestry : List String} {p : Property} {inner : String}
    (h : r.shape p = .entity inner ∨ r.shape p = .entities inner) (hin : inner ∈ ancestry)
    (v : Option Value) : argument r ancestry p v = .null := by
  cases v with
  | none => rfl
  | some w =>
      unfold argument
      rcases h with h | h <;> simp [h, hin]

/-- An object has an argument for each property. -/
theorem graph_eq (r : Registry) (ancestry : List String) (type : String) (v : Value) :
    graph r ancestry type v = .object type ((r.propertiesOf type).map fun p =>
      argument r (ancestry ++ [type]) p (v.get? p.name)) := by
  rw [graph]
  congr 1
  refine List.map_congr_left fun p _ => ?_
  unfold argument
  split
  · next h =>
      conv_rhs => rw [h]
      rfl
  · next w h =>
      conv_rhs => rw [h, Option.elim_some]
      by_cases hw : w.isNull = true
      · simp [hw]
      · rw [if_neg hw, if_neg hw]
        cases r.shape p with
        | plain => rfl
        | entity inner => rfl
        | entities inner =>
            by_cases ha : inner ∈ ancestry ++ [type]
            · simp [ha]
            · cases w <;> simp [ha]

namespace Expression

variable {r : Registry} {ancestry : List String} {p : Property} {binding : Binding}
  {root : Value} {path : List String} {v : Option Value}

/-- A field is read, or null where it need not be there. -/
theorem eval_field (hdig : root.dig (path ++ [p.name]) = v)
    (hreq : p.required = true → ∃ w, v = some w ∧ w.isNull = false) :
    eval ⟨Php.variableOf binding, root⟩ (.field ⟨binding, path ++ [p.name], !p.required⟩) =
      .ok (v.elim .null fun w => if w.isNull then .null else .value w) := by
  rw [eval]
  by_cases hp : p.required = true
  · obtain ⟨w, rfl, hw⟩ := hreq hp
    simp only [hp, Bool.not_true, Bool.false_and, Bool.false_eq_true, if_false]
    rw [access_of_dig hdig]
    simp [hw, Functor.map, Except.map]
  · have hp' : p.required = false := by simpa using hp
    simp only [hp', Bool.not_false, Bool.true_and, isSet_eq, hdig]
    have hpath : (path ++ [p.name]).isEmpty = false := by simp
    rw [hpath]
    cases v with
    | none => rfl
    | some w =>
        rw [access_of_dig hdig]
        cases hw : w.isNull <;> simp [hw, Functor.map, Except.map, bind, Except.bind, pure,
          Except.pure]

/-- What stands for a property is evaluated where the property is there. -/
theorem eval_unlessRequired {e : Expression} {f : Value → Built}
    (hdig : root.dig path = v) (hreq : p.required = true → ∃ w, v = some w ∧ w.isNull = false)
    (he : ∀ w, v = some w → w.isNull = false →
      eval ⟨Php.variableOf binding, root⟩ e = .ok (f w)) :
    eval ⟨Php.variableOf binding, root⟩ (unlessRequired p binding path e) =
      .ok (v.elim .null fun w => if w.isNull then .null else f w) := by
  unfold unlessRequired
  split
  · next hp =>
      obtain ⟨w, rfl, hw⟩ := hreq hp
      simp [he w rfl hw, hw]
  · rw [eval_nullGuard, hdig]
    cases v with
    | none => rfl
    | some w =>
        cases hw : w.isNull with
        | true => simp [hw]
        | false => simp [hw, he w rfl hw]

/-- Evaluated where a value conforms to a type, the expression for the type builds the graph of
the value, whatever variable and path lead to it. -/
theorem eval_ofType {type : String} {w : Value} (h : Conforms r ancestry type w)
    (hnew : type ∉ ancestry) (hdig : root.dig path = some w) :
    eval ⟨Php.variableOf binding, root⟩ (ofType r ancestry type binding path) =
      .ok (graph r ancestry type w) := by
  induction h generalizing binding root path with
  | @object ancestry type v hv required entity list items ihEntity ihItems =>
      rw [ofType_eq hnew, graph_eq, eval, evalAll_map (g := fun p =>
        argument r (ancestry ++ [type]) p (v.get? p.name))]
      · rfl
      intro p hp
      have hdig' : root.dig (path ++ [p.name]) = v.get? p.name := by
        rw [Value.dig_append, hdig, Option.bind_some]
      rw [ofProperty_eq]
      cases hshape : r.shape p with
      | plain =>
          unfold argument
          rw [hshape]
          exact eval_field hdig' (required p hp)
      | entity inner =>
          by_cases hin : inner ∈ ancestry ++ [type]
          · rw [argument_of_mem (.inl hshape) hin]
            simp only [List.contains_iff_mem, hin, if_true, eval]
            rfl
          · unfold argument
            simp only [List.contains_iff_mem, hshape, hin, if_false]
            refine eval_unlessRequired hdig' (required p hp) fun w hw hnull => ?_
            exact ihEntity p hp inner w hshape hin hw hnull hin (hdig'.trans hw)
      | entities inner =>
          by_cases hin : inner ∈ ancestry ++ [type]
          · rw [argument_of_mem (.inr hshape) hin]
            simp only [List.contains_iff_mem, hin, if_true, eval]
            rfl
          · unfold argument
            simp only [List.contains_iff_mem, hshape, hin, if_false]
            refine eval_unlessRequired hdig' (required p hp) fun w hw hnull => ?_
            obtain ⟨xs, rfl⟩ := list p hp inner w hshape hin hw hnull
            -- The path starts anew at the elements, with a variable of their own.
            exact eval_arrayMap (hdig'.trans hw) fun x hx =>
              ihItems p hp inner xs x hshape hin hw hx hin rfl

end Expression

/-- A body conforms to a response of a type: an object of it, or a list of such objects. -/
def BodyConforms (r : Registry) (type : String) (isArray : Bool) (body : Value) : Prop :=
  if isArray then ∃ items, body = .seq items ∧ ∀ v ∈ items, Conforms r [] type v
  else Conforms r [] type body

/-- The graph of a response body. -/
def responseGraph (r : Registry) (type : String) (isArray : Bool) (body : Value) : Built :=
  match isArray, body with
  | true, .seq items => .list (items.map (graph r [] type))
  | _, body => graph r [] type body

/-- The expression for a response never gets stuck on a body that conforms, and builds the graph
of the body: no variable is read where it is not bound, and no key outside a guard that is not
there. -/
theorem eval_ofResponse {r : Registry} {type : String} {isArray : Bool} {body : Value}
    (h : BodyConforms r type isArray body) :
    (Expression.ofResponse r type isArray).eval ⟨Php.variableOf .response, body⟩ =
      .ok (responseGraph r type isArray body) := by
  unfold Expression.ofResponse Expression.synthesize
  cases isArray with
  | false => exact Expression.eval_ofType h (by simp) rfl
  | true =>
      obtain ⟨items, rfl, hitems⟩ := h
      refine Expression.eval_arrayMap rfl fun v hv => ?_
      exact Expression.eval_ofType (hitems v hv) (by simp) rfl

section Owners

/-- Owners with their pets. -/
def owners : Registry := ⟨[
  { name := "Owner", properties := [
    { name := "pets", required := true, type := "array", items := some "Pet" }] },
  { name := "Pet", properties := [
    { name := "name", required := true, type := "string" },
    { name := "owner", type := "Owner" },
    { name := "tag", type := "Tag" }] },
  { name := "Tag", properties := [{ name := "label", type := "string" }] }]⟩

/-- A tag without a label. -/
def ownersTag : Value := .map 3 [(.str "label", .null)]

/-- A pet with a tag. -/
def ownersPet : Value := .map 2 [(.str "name", .str "Rex"), (.str "tag", ownersTag)]

/-- The owner of the pet. -/
def ownersOwner : Value := .map 1 [(.str "pets", .seq [ownersPet])]

theorem conforms_owners : BodyConforms owners "Owner" true (.seq [ownersOwner]) := by
  have htag : Conforms owners ["Owner", "Pet"] "Tag" ownersTag := by
    have hprops : owners.propertiesOf "Tag" = [{ name := "label", type := "string" }] := by
      decide
    have hlabel : owners.shape { name := "label", type := "string" } = .plain := by decide
    constructor
    · rfl
    all_goals simp [hprops, hlabel]
  have hpet : Conforms owners ["Owner"] "Pet" ownersPet := by
    have hprops : owners.propertiesOf "Pet" = [
      { name := "name", required := true, type := "string" },
      { name := "owner", type := "Owner" }, { name := "tag", type := "Tag" }] := by decide
    have hname : owners.shape { name := "name", required := true, type := "string" } =
      .plain := by decide
    have howner : owners.shape { name := "owner", type := "Owner" } = .entity "Owner" := by
      decide
    have htagShape : owners.shape { name := "tag", type := "Tag" } = .entity "Tag" := by decide
    have hgetName : ownersPet.get? "name" = some (.str "Rex") := by decide
    have hgetOwner : ownersPet.get? "owner" = none := by decide
    have hgetTag : ownersPet.get? "tag" = some ownersTag := by decide
    constructor
    · rfl
    · simp [hprops, hgetName, Value.isNull]
    · simp [hprops, hname, howner, htagShape, hgetOwner, hgetTag]
      rintro _ _ rfl - - rfl -
      exact htag
    all_goals simp [hprops, hname, howner, htagShape]
  refine ⟨_, rfl, ?_⟩
  intro v hv
  obtain rfl := List.mem_singleton.1 hv
  have hprops : owners.propertiesOf "Owner" = [
    { name := "pets", required := true, type := "array", items := some "Pet" }] := by decide
  have hpets : owners.shape
      { name := "pets", required := true, type := "array", items := some "Pet" } =
    .entities "Pet" := by decide
  have hget : ownersOwner.get? "pets" = some (.seq [ownersPet]) := by decide
  constructor
  · rfl
  · simp [hprops, hget, Value.isNull]
  · simp [hprops, hpets]
  · simp [hprops, hpets, hget]
  · simp [hprops, hpets, hget]
    rintro _ _ _ rfl - rfl hx
    obtain rfl := List.mem_singleton.1 hx
    exact hpet

/-- The expression for owners leaves the owner of a pet null, since it is being built already, and
builds the tag without a label. -/
theorem eval_ofResponse_owners : BodyConforms owners "Owner" true (.seq [ownersOwner]) ∧
    (Expression.ofResponse owners "Owner" true).eval
      ⟨Php.variableOf .response, .seq [ownersOwner]⟩ =
      .ok (.list [.object "Owner" [.list [.object "Pet" [.value (.str "Rex"), .null,
        .object "Tag" [.null]]]]]) := by
  refine ⟨conforms_owners, ?_⟩
  rw [eval_ofResponse conforms_owners]
  cbv

end Owners

end OpenApiClient
