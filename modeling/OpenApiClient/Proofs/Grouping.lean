import OpenApiClient.Proofs.Ordering
import OpenApiClient.Proofs.Table

/-!
# Query parameters by name

The parameters in the query are put in order, required ones first, and are then kept by name: of
several parameters of one name the last one stays, in the place of the first one.  So a name has the
place of a required parameter if it is declared as one anywhere, and it holds an optional parameter
if it is declared as one anywhere.  Where a name *varies*, being declared as both, the two disagree:
`isGroup_iff` says exactly when the order is none the worse for it.
-/

namespace OpenApiClient

open Walk

/-- What a node declares at a location: the name of a parameter, and whether it is required. -/
def Document.declaration? (doc : Document) (location : ParameterLocation) (node : Value) :
    Option (String × Bool) := do
  let settled ← (doc.settle node).toOption
  if settled.isMap && (settled.get "in").same (.str location.key) then
    some (((settled.get? "name").getD (.str "")).text,
      location = .path || (settled.get "required").isFilled)
  else none

/-- What an operation declares at a location, in its order. -/
def Operation.declarations (doc : Document) (o : Operation) (location : ParameterLocation) :
    List (String × Bool) :=
  o.parameters.filterMap (doc.declaration? location)

namespace Parameter

variable {ds : List (String × Bool)} {m n : String}

/-- The names that are declared. -/
def namesOf (ds : List (String × Bool)) : List String := ds.map (·.1)

/-- The names of the declarations that are required. -/
def requiredNames (ds : List (String × Bool)) : List String := namesOf (ds.filter (·.2))

/-- The names of the declarations that are optional. -/
def optionalNames (ds : List (String × Bool)) : List String := namesOf (ds.filter (!·.2))

theorem mem_requiredNames : n ∈ requiredNames ds ↔ (n, true) ∈ ds := by
  simp [requiredNames, namesOf]

theorem mem_optionalNames : n ∈ optionalNames ds ↔ (n, false) ∈ ds := by
  simp [optionalNames, namesOf]

theorem mem_namesOf : n ∈ namesOf ds ↔ (n, true) ∈ ds ∨ (n, false) ∈ ds := by
  simp [namesOf, or_comm]

/-- Where the names stand when the required declarations are put first. -/
def position (ds : List (String × Bool)) (n : String) : ℕ :=
  (requiredNames ds ++ optionalNames ds).idxOf n

/-- A name is declared both as required and as optional. -/
def Varies (ds : List (String × Bool)) (n : String) : Prop := (n, true) ∈ ds ∧ (n, false) ∈ ds

/-- Parameters by name are the group of what is declared: one for each name, required ones before
optional ones, and in either part in the order in which the names are declared first. -/
structure IsGroup (ds : List (String × Bool)) (group : List (String × Parameter)) : Prop where
  nodup : (group.map (·.1)).Nodup
  mem_iff (name : String) : name ∈ group.map (·.1) ↔ name ∈ namesOf ds
  requiredFirst : group.Pairwise fun e f => f.2.required = true → e.2.required = true
  ordered : group.Pairwise fun e f => e.2.required = f.2.required →
    (namesOf ds).idxOf e.1 < (namesOf ds).idxOf f.1

/-- The names that vary do not disturb the order: each of them is first declared as required after
all names that are required only, they are first declared as required in the order in which they are
first declared at all, and each of them is first declared before all names that are optional
only. -/
structure IsSteady (ds : List (String × Bool)) : Prop where
  required (m n : String) (hm : Varies ds m) (hn : (n, true) ∈ ds) (hn' : (n, false) ∉ ds) :
    (requiredNames ds).idxOf n < (requiredNames ds).idxOf m
  varying (m n : String) (hm : Varies ds m) (hn : Varies ds n)
    (h : (requiredNames ds).idxOf m < (requiredNames ds).idxOf n) :
    (namesOf ds).idxOf m < (namesOf ds).idxOf n
  optional (m n : String) (hm : Varies ds m) (hn : (n, false) ∈ ds) (hn' : (n, true) ∉ ds) :
    (namesOf ds).idxOf m < (namesOf ds).idxOf n

theorem position_of_required (h : (n, true) ∈ ds) : position ds n = (requiredNames ds).idxOf n :=
  List.idxOf_append_of_mem (mem_requiredNames.2 h)

theorem position_of_not_required (h : (n, true) ∉ ds) :
    position ds n = (requiredNames ds).length + (optionalNames ds).idxOf n :=
  List.idxOf_append_of_notMem fun hmem => h (mem_requiredNames.1 hmem)

theorem position_lt (h : (n, true) ∈ ds) : position ds n < (requiredNames ds).length := by
  rw [position_of_required h]
  exact List.idxOf_lt_length_of_mem (mem_requiredNames.2 h)

/-- Two names may follow each other in a group, where a name is optional if it is declared so
anywhere. -/
def InOrder (ds : List (String × Bool)) (m n : String) : Prop :=
  ((n, false) ∉ ds → (m, false) ∉ ds) ∧
    (((m, false) ∈ ds ↔ (n, false) ∈ ds) → (namesOf ds).idxOf m < (namesOf ds).idxOf n)

theorem IsSteady.inOrder (h : IsSteady ds) (hn : n ∈ namesOf ds)
    (hlt : position ds m < position ds n) : InOrder ds m n := by
  have hrequired {k : String} (hk : k ∈ namesOf ds) (hk' : (k, false) ∉ ds) : (k, true) ∈ ds :=
    (mem_namesOf.1 hk).resolve_right hk'
  have hleft (hn : (n, true) ∈ ds) :
      (m, true) ∈ ds ∧ (requiredNames ds).idxOf m < (requiredNames ds).idxOf n := by
    obtain ⟨hm, hlt⟩ := idxOf_lt_of_append_left (mem_requiredNames.2 hn) hlt
    exact ⟨mem_requiredNames.1 hm, hlt⟩
  constructor
  · intro hn' hm'
    have hnr := hrequired hn hn'
    obtain ⟨hmr, hlt⟩ := hleft hnr
    exact Nat.lt_asymm hlt (h.required m n ⟨hmr, hm'⟩ hnr hn')
  · intro hiff
    by_cases hm' : (m, false) ∈ ds
    · have hn' := hiff.1 hm'
      by_cases hmr : (m, true) ∈ ds
      · by_cases hnr : (n, true) ∈ ds
        · exact h.varying m n ⟨hmr, hm'⟩ ⟨hnr, hn'⟩ (hleft hnr).2
        · exact h.optional m n ⟨hmr, hm'⟩ hn' hnr
      · obtain ⟨hnr, hlt⟩ := idxOf_lt_of_append_right (mt mem_requiredNames.1 hmr) hlt
        refine idxOf_map_lt_of_filter (q := fun d : String × Bool => !d.2) (fun d hd heq => ?_) hlt
        obtain ⟨k, _ | _⟩ := d
        · rfl
        · exact absurd (mem_requiredNames.2 (heq ▸ hd)) hnr
    · have hn' : (n, false) ∉ ds := fun hn' => hm' (hiff.2 hn')
      obtain ⟨-, hlt⟩ := hleft (hrequired hn hn')
      refine idxOf_map_lt_of_filter (q := fun d : String × Bool => d.2) (fun d hd heq => ?_) hlt
      obtain ⟨k, _ | _⟩ := d
      · exact absurd (heq ▸ hd) hn'
      · rfl

/-- The order with the required declarations first is that of a group exactly if the names that vary
do not disturb it. -/
theorem isSteady_iff : IsSteady ds ↔ ∀ m ∈ namesOf ds, ∀ n ∈ namesOf ds,
    position ds m < position ds n → InOrder ds m n := by
  refine ⟨fun h m _ n hn hlt => h.inOrder hn hlt, fun h => ?_⟩
  refine ⟨fun m n hm hn hn' => ?_, fun m n hm hn hlt => ?_, fun m n hm hn hn' => ?_⟩
  · by_contra hlt
    have hne : m ≠ n := fun heq => hn' (heq ▸ hm.2)
    have hposition : position ds m ≠ position ds n := fun heq =>
      hne ((List.idxOf_inj (List.mem_append_left _ (mem_requiredNames.2 hm.1))).1 heq)
    rw [← position_of_required hn, ← position_of_required hm.1] at hlt
    exact (h m (mem_namesOf.2 (.inl hm.1)) n (mem_namesOf.2 (.inl hn)) (by omega)).1 hn' hm.2
  · rw [← position_of_required hm.1, ← position_of_required hn.1] at hlt
    exact (h m (mem_namesOf.2 (.inl hm.1)) n (mem_namesOf.2 (.inl hn.1)) hlt).2
      ⟨fun _ => hn.2, fun _ => hm.2⟩
  · have hlt : position ds m < position ds n := by
      have hplace := position_lt hm.1
      rw [position_of_not_required hn']
      omega
    exact (h m (mem_namesOf.2 (.inl hm.1)) n (mem_namesOf.2 (.inr hn)) hlt).2
      ⟨fun _ => hn, fun _ => hm.2⟩

instance : Decidable (InOrder ds m n) := inferInstanceAs (Decidable (_ ∧ _))

instance : Decidable (IsSteady ds) := decidable_of_iff _ isSteady_iff.symm

section Query

variable {doc : Document} {r : Registry} {kind : ClassKind} {className : String} {o : Operation}
  {location : ParameterLocation}

/-- A parameter has the name that its node declares, and is required if the node says so. -/
theorem declaration?_of_ofNode {node : Value} {found : Option Parameter}
    (h : ofNode doc r kind className location node = .ok found) :
    doc.declaration? location node = found.map fun p => (p.name, p.required) := by
  unfold ofNode at h
  obtain ⟨settled, hsettled, h⟩ := bind_eq_ok.1 h
  have hdeclaration : doc.declaration? location node =
      if settled.isMap && (settled.get "in").same (.str location.key) then
        some (((settled.get? "name").getD (.str "")).text,
          location = .path || (settled.get "required").isFilled)
      else none := by
    unfold Document.declaration?
    rw [toOption_eq_some.2 hsettled]
    rfl
  rw [hdeclaration]
  split at h
  · next hnot =>
      obtain rfl := Except.ok.inj h
      rw [if_neg (by simpa [or_iff_not_imp_left] using hnot)]
      rfl
  · next hstands =>
      obtain ⟨schema, -, h⟩ := bind_eq_ok.1 h
      obtain ⟨p, hfill, rfl⟩ := map_eq_ok.1 h
      obtain ⟨-, rfl⟩ := (Fields.fill_eq_ok_iff _ _ _ _).1 hfill
      rw [if_pos (by simpa using hstands)]
      rfl

/-- The parameters at a location are those that are declared there, in their order. -/
theorem map_of_located {ps : List Parameter}
    (h : located doc r kind className location o = .ok ps) :
    ps.map (fun p => (p.name, p.required)) = o.declarations doc location := by
  obtain ⟨found, hfound, rfl⟩ := map_eq_ok.1 h
  have hmap : found.map (Option.map fun p => (p.name, p.required)) =
      o.parameters.map (doc.declaration? location) :=
    map_eq_of_forall₂ (R := fun node p? => ofNode doc r kind className location node = .ok p?)
      (fun _ _ hread => (declaration?_of_ofNode hread).symm) (forall₂_of_mapM_eq_ok hfound)
  calc (found.filterMap id).map (fun p => (p.name, p.required))
      = (found.map (Option.map fun p => (p.name, p.required))).filterMap id := by
        rw [List.map_filterMap, List.filterMap_map]
        rfl
    _ = (o.parameters.map (doc.declaration? location)).filterMap id := by rw [hmap]
    _ = o.declarations doc location := List.filterMap_map

theorem exists_isTable_of_inQuery {query : List (String × Parameter)}
    (h : inQuery doc r kind className o = .ok query) :
    ∃ ps, ps.map (fun p => (p.name, p.required)) = o.declarations doc .query ∧
      IsTable (rowsOf (requiredFirst ps)) query := by
  obtain ⟨ps, hps, rfl⟩ := map_eq_ok.1 h
  exact ⟨ps, map_of_located hps, isTable_byName _⟩

theorem names_requiredFirst (ps : List Parameter) :
    (rowsOf (requiredFirst ps)).map (·.1) =
      requiredNames (ps.map fun p => (p.name, p.required)) ++
        optionalNames (ps.map fun p => (p.name, p.required)) := by
  unfold rowsOf requiredFirst requiredNames optionalNames namesOf
  simp only [List.map_append, List.map_map, List.filter_map]
  rfl

/-- Under a name there is an optional parameter if the name is declared so anywhere. -/
theorem required_iff_of_isTable {ps : List Parameter} {query : List (String × Parameter)}
    (h : IsTable (rowsOf (requiredFirst ps)) query) {e : String × Parameter} (he : e ∈ query) :
    e.2.name = e.1 ∧
      (e.2.required = true ↔ (e.1, false) ∉ ps.map fun p => (p.name, p.required)) := by
  obtain ⟨hp, hname⟩ := mem_rowsOf.1 (h.mem_rows he)
  refine ⟨hname, fun hrequired hoptional => ?_, fun hnot => ?_⟩
  · obtain ⟨q, hq, heq⟩ := List.mem_map.1 hoptional
    obtain ⟨hname', hq'⟩ := Prod.mk.inj heq
    -- The optional parameters come last, so that one of them is under the name.
    have hlate : e.1 ∈ (rowsOf (ps.filter (!·.required))).map (·.1) :=
      List.mem_map.2 ⟨(e.1, q), mem_rowsOf.2 ⟨List.mem_filter.2 ⟨hq, by simp [hq']⟩, hname'⟩, rfl⟩
    unfold rowsOf requiredFirst at h
    rw [List.map_append] at h
    have hlast := (List.mem_filter.1 (mem_rowsOf.1 (h.mem_right he hlate)).1).2
    simp [hrequired] at hlast
  · by_contra hrequired
    refine hnot (List.mem_map.2 ⟨e.2, mem_requiredFirst.1 hp, ?_⟩)
    rw [hname, Bool.eq_false_iff.2 hrequired]

/-- Of what holds of the entries of a group in turn only the names matter. -/
theorem isGroup_iff_pairwise {ds : List (String × Bool)} {query : List (String × Parameter)}
    (hnodup : (query.map (·.1)).Nodup)
    (hmem : ∀ name, name ∈ query.map (·.1) ↔ name ∈ namesOf ds)
    (hrequired : ∀ e ∈ query, e.2.required = true ↔ (e.1, false) ∉ ds) :
    IsGroup ds query ↔ (query.map (·.1)).Pairwise (InOrder ds) := by
  have hiff : query.Pairwise (fun e f => (f.2.required = true → e.2.required = true) ∧
      (e.2.required = f.2.required → (namesOf ds).idxOf e.1 < (namesOf ds).idxOf f.1)) ↔
      (query.map (·.1)).Pairwise (InOrder ds) := by
    rw [List.pairwise_map]
    refine List.Pairwise.iff_of_mem fun {e f} he hf => ?_
    unfold InOrder
    have hsame : ((e.1, false) ∈ ds ↔ (f.1, false) ∈ ds) ↔ e.2.required = f.2.required := by
      rw [← not_iff_not (a := (e.1, false) ∈ ds), ← hrequired e he, ← hrequired f hf,
        Bool.coe_iff_coe]
    rw [← hrequired e he, ← hrequired f hf, hsame]
  rw [← hiff, List.pairwise_and_iff]
  exact ⟨fun h => ⟨h.requiredFirst, h.ordered⟩, fun h => ⟨hnodup, hmem, h.1, h.2⟩⟩

/-- The query parameters of a method are kept by name.  There is one for each name that the
operation declares, and it is optional if any declaration of the name is.  They are the group of
what is declared exactly if the names that are declared as both do not disturb its order. -/
theorem isGroup_iff {query : List (String × Parameter)}
    (h : inQuery doc r kind className o = .ok query) :
    (query.map (·.1)).Nodup ∧
      (∀ name, name ∈ query.map (·.1) ↔ name ∈ namesOf (o.declarations doc .query)) ∧
      (∀ e ∈ query, e.2.name = e.1 ∧
        (e.2.required = true ↔ (e.1, false) ∉ o.declarations doc .query)) ∧
      (IsGroup (o.declarations doc .query) query ↔ IsSteady (o.declarations doc .query)) := by
  obtain ⟨ps, hps, htable⟩ := exists_isTable_of_inQuery h
  have hkeys := htable.keys
  rw [names_requiredFirst, hps] at hkeys
  have hentries (e : String × Parameter) (he : e ∈ query) : e.2.name = e.1 ∧
      (e.2.required = true ↔ (e.1, false) ∉ o.declarations doc .query) :=
    hps ▸ required_iff_of_isTable htable he
  have hmem (name : String) :
      name ∈ query.map (·.1) ↔ name ∈ namesOf (o.declarations doc .query) := by
    rw [hkeys, List.mem_eraseDups, List.mem_append, mem_requiredNames, mem_optionalNames,
      mem_namesOf]
  refine ⟨htable.nodup, hmem, hentries, ?_⟩
  rw [isGroup_iff_pairwise htable.nodup hmem fun e he => (hentries e he).2, hkeys,
    pairwise_eraseDups_iff, isSteady_iff]
  simp only [List.mem_append, mem_requiredNames, mem_optionalNames, mem_namesOf]
  rfl

/-- Pets are listed by two required parameters, and by an optional limit of all lists. -/
def petLists (first second : String) : Document := .ofValue <| .map 0 [
  (.str "openapi", .str "3.0.0"),
  (.str "info", .map 1 [(.str "title", .str "Pets"), (.str "version", .str "1")]),
  (.str "paths", .map 2 [(.str "/pets", .map 3 [(.str "get", .map 4 [
    (.str "operationId", .str "listPets"),
    (.str "tags", .seq [.str "Manager:Pets"]),
    (.str "parameters", .seq [
      .map 5 [(.str "name", .str first), (.str "in", .str "query"), (.str "required", .bool true),
        (.str "schema", .map 6 [(.str "type", .str "string")])],
      .map 7 [(.str "name", .str second), (.str "in", .str "query"), (.str "required", .bool true),
        (.str "schema", .map 8 [(.str "type", .str "string")])],
      Schema.referenceTo (.str "#/components/parameters/Limit")]),
    (.str "responses", .map 9 [(.str "204", .map 10 [(.str "description", .str "Nothing")])])])])]),
  (.str "components", .map 11 [(.str "parameters", .map 12 [(.str "Limit", .map 13 [
    (.str "name", .str "limit"), (.str "in", .str "query"),
    (.str "schema", .map 14 [(.str "type", .str "integer")])])])])]

/-- What the first operation of a document declares in the query, and the parameters by name. -/
def firstQuery (doc : Document) : Option (List (String × Bool) × List (String × Bool)) := do
  let d ← (Description.ofDocument doc "3.0.0").toOption
  let o ← d.operations.head?
  let query ← (inQuery doc {} .manager "Pets" o).toOption
  return (o.declarations doc .query, query.map fun e => (e.1, e.2.required))

theorem exists_of_firstQuery {ds group : List (String × Bool)}
    (h : firstQuery doc = some (ds, group)) :
    ∃ d o query, Description.ofDocument doc "3.0.0" = .ok d ∧ o ∈ d.operations ∧
      inQuery doc {} .manager "Pets" o = .ok query ∧ o.declarations doc .query = ds ∧
      query.map (fun e => (e.1, e.2.required)) = group := by
  obtain ⟨d, hd, h⟩ := Option.bind_eq_some_iff.1 h
  obtain ⟨o, ho, h⟩ := Option.bind_eq_some_iff.1 h
  obtain ⟨query, hquery, h⟩ := Option.bind_eq_some_iff.1 h
  cases h
  exact ⟨d, o, query, toOption_eq_some.1 hd, List.mem_of_head? ho, toOption_eq_some.1 hquery, rfl,
    rfl⟩

theorem firstQuery_petLists :
    firstQuery (petLists "limit" "owner") = some ([("limit", true), ("owner", true),
      ("limit", false)], [("limit", false), ("owner", true)]) ∧
    firstQuery (petLists "owner" "limit") = some ([("owner", true), ("limit", true),
      ("limit", false)], [("owner", true), ("limit", false)]) := by
  decide +kernel

/-- A limit that is required first, and optional then, is optional in the place of a required
parameter, before the owner. -/
theorem not_isGroup_petLists : ∃ d o query,
    Description.ofDocument (petLists "limit" "owner") "3.0.0" = .ok d ∧ o ∈ d.operations ∧
      inQuery (petLists "limit" "owner") {} .manager "Pets" o = .ok query ∧
      ¬ IsGroup (o.declarations (petLists "limit" "owner") .query) query := by
  obtain ⟨d, o, query, hd, ho, hquery, -, hgroup⟩ := exists_of_firstQuery firstQuery_petLists.1
  refine ⟨d, o, query, hd, ho, hquery, fun h => ?_⟩
  have hfirst : (query.map fun e => (e.1, e.2.required)).Pairwise fun e f =>
      f.2 = true → e.2 = true :=
    List.pairwise_map.2 h.requiredFirst
  rw [hgroup] at hfirst
  exact absurd hfirst (by decide)

/-- With the owner before the limit the parameters are a group, although the limit varies. -/
theorem isGroup_petLists : ∃ d o query,
    Description.ofDocument (petLists "owner" "limit") "3.0.0" = .ok d ∧ o ∈ d.operations ∧
      inQuery (petLists "owner" "limit") {} .manager "Pets" o = .ok query ∧
      query.map (·.1) = ["owner", "limit"] ∧
      IsGroup (o.declarations (petLists "owner" "limit") .query) query := by
  obtain ⟨d, o, query, hd, ho, hquery, hdeclared, hgroup⟩ :=
    exists_of_firstQuery firstQuery_petLists.2
  have hnames := congrArg (List.map (·.1)) hgroup
  rw [List.map_map] at hnames
  refine ⟨d, o, query, hd, ho, hquery, hnames, (isGroup_iff hquery).2.2.2.2 ?_⟩
  rw [hdeclared]
  decide +kernel

end Query

end Parameter

end OpenApiClient
