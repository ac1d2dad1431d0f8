import OpenApiClient.Proofs.MirroredReading
import OpenApiClient.Proofs.Table

/-!
# The operations of a document

A document declares operations at its paths, and a description enumerates them: `IsReadOff` says
what an operation has from its place in the document.  Its parameters are those of its path, as far
as it has none of the same name and location itself, followed by its own: `Overrides` says what
this means for two lists of nodes.
-/

namespace OpenApiClient

open Walk

/-- The name and the location by which a node tells a parameter, where both are texts.  What is not
there is the empty text. -/
def Document.parameterKey? (doc : Document) (node : Value) : Option (String × String) := do
  let settled ← (doc.settle node).toOption
  if settled.isMap then
    let name ← ((settled.get? "name").getD (.str "")).text?
    let location ← ((settled.get? "in").getD (.str "")).text?
    return (name, location)
  else none

namespace Value

theorem entries?_of_entriesOrNone {v : Value} {es : Entries}
    (h : v.entriesOrNone = .ok es) : v.entries?.getD [] = es := by
  unfold entriesOrNone at h
  split at h
  · split at h
    · obtain rfl := Except.ok.inj h
      rfl
    · cases h
  · next hempty =>
      obtain rfl := Except.ok.inj h
      cases v with
      | map origin es => simpa [isFilled, entries?] using hempty
      | _ => rfl

theorem insert_str (k : String) (v : Value) (table : List (String × Value)) :
    insert (.str k) v (table.map fun e => (.str e.1, e.2)) =
      (upsert k v table).map fun e => (.str e.1, e.2) := by
  induction table with
  | nil => rfl
  | cons e rest ih =>
      rw [List.map_cons, insert, upsert, Scalar.same_str]
      by_cases hk : e.1 = k
      · simp [hk]
      · simp [hk, ih]

/-- Entries whose keys are texts are put together as a table. -/
theorem ofPairs_str (rows : List (String × Value)) :
    ofPairs (rows.map fun e => (.str e.1, e.2)) =
      (tabulate rows).map fun e => (.str e.1, e.2) := by
  induction rows using List.reverseRecOn with
  | nil => rfl
  | append_singleton rows row ih =>
      rw [tabulate_concat, ← insert_str, ← ih, List.map_append]
      unfold ofPairs
      rw [List.foldl_append]
      rfl

theorem membersOrNone_seq (l : List Value) : (Value.seq l).membersOrNone = .ok l := by
  cases l <;> rfl

end Value

namespace Parameters

section Keys

variable {κ : Type} [BEq κ] [LawfulBEq κ] (key : Value → κ)

/-- The nodes of a path that none of an operation replaces, and then those of the operation. -/
def overriding (ofPath ofOperation : List Value) : List Value :=
  ofPath.filter (fun p => !(ofOperation.map key).contains (key p)) ++ ofOperation

variable {key} {P O : List Value}

theorem mem_keys_overriding {k : κ} :
    k ∈ (overriding key P O).map key ↔ k ∈ P.map key ∨ k ∈ O.map key := by
  unfold overriding
  rw [List.map_append, List.mem_append]
  constructor
  · rintro (h | h)
    · obtain ⟨p, hp, rfl⟩ := List.mem_map.1 h
      exact .inl (List.mem_map_of_mem (List.mem_of_mem_filter hp))
    · exact .inr h
  · rintro (h | h)
    · by_cases hown : k ∈ O.map key
      · exact .inr hown
      · obtain ⟨p, hp, rfl⟩ := List.mem_map.1 h
        exact .inl (List.mem_map_of_mem (List.mem_filter.2 ⟨hp, by simpa using hown⟩))
    · exact .inr h

/-- Under the keys of the operation there is nothing but what the operation declares. -/
theorem filter_overriding :
    (overriding key P O).filter (fun p => (O.map key).contains (key p)) = O := by
  have hnone : P.filter (fun p => (O.map key).contains (key p) &&
      !(O.map key).contains (key p)) = [] :=
    List.filter_eq_nil_iff.2 fun p _ => by simp
  have hall : O.filter (fun p => (O.map key).contains (key p)) = O :=
    List.filter_eq_self.2 fun p hp => List.contains_iff_mem.2 (List.mem_map_of_mem hp)
  unfold overriding
  rw [List.filter_append, List.filter_filter, hnone, hall, List.nil_append]

theorem nodup_overriding (hP : (P.map key).Nodup) (hO : (O.map key).Nodup) :
    ((overriding key P O).map key).Nodup := by
  unfold overriding
  rw [List.map_append]
  refine List.nodup_append'.2 ⟨?_, hO, ?_⟩
  · exact hP.sublist (List.filter_sublist.map key)
  · rintro k hk hk'
    obtain ⟨p, hp, rfl⟩ := List.mem_map.1 hk
    have hnot := (List.mem_filter.1 hp).2
    rw [List.contains_iff_mem.2 hk'] at hnot
    cases hnot

/-- What has been replaced once is not replaced again. -/
theorem overriding_overriding : overriding key (overriding key P O) O = overriding key P O := by
  have hown : O.filter (fun p => !(O.map key).contains (key p)) = [] :=
    List.filter_eq_nil_iff.2 fun p hp => by
      rw [List.contains_iff_mem.2 (List.mem_map_of_mem hp)]
      decide
  unfold overriding
  rw [List.filter_append, List.filter_filter, hown, List.append_nil]
  simp only [Bool.and_self]

end Keys

variable {doc : Document} {P O : List Value}

/-- The nodes `M` are those of an operation, put over those of its path: what the operation declares
stays as it is, and of the path there stays what has the name and location of none of that. -/
structure Overrides (doc : Document) (P O M : List Value) : Prop where
  eq_overriding : M = overriding doc.parameterKey? P O
  mem_keys_iff (k : Option (String × String)) : k ∈ M.map doc.parameterKey? ↔
    k ∈ P.map doc.parameterKey? ∨ k ∈ O.map doc.parameterKey?
  own : M.filter (fun p => (O.map doc.parameterKey?).contains (doc.parameterKey? p)) = O
  nodup : (P.map doc.parameterKey?).Nodup → (O.map doc.parameterKey?).Nodup →
    (M.map doc.parameterKey?).Nodup
  again : merge doc (.seq M) (.seq O) = .ok M

/-- Name and location as one value. -/
def keyValue (k : String × String) : Value := .pair (.str k.1) (.str k.2)

theorem same_keyValue (k l : String × String) :
    (keyValue k).same (keyValue l) = decide (k = l) := by
  obtain ⟨name, location⟩ := k
  obtain ⟨name', location'⟩ := l
  rw [Bool.eq_iff_iff]
  simp [keyValue, Value.same]

theorem identity_eq_ok {node : Value} {k : String × String}
    (h : doc.parameterKey? node = some k) : identity doc node = .ok (keyValue k) := by
  obtain ⟨settled, hsettled, h⟩ := Option.bind_eq_some_iff.1 h
  split at h
  · next hmap =>
      obtain ⟨name, hname, h⟩ := Option.bind_eq_some_iff.1 h
      obtain ⟨location, hlocation, h⟩ := Option.bind_eq_some_iff.1 h
      obtain rfl := Option.some.inj h
      have hfield {field : String} {s : String}
          (hs : ((settled.get? field).getD (.str "")).text? = some s) :
          settled.fieldOr field (.str "") = .ok (.str s) := by
        unfold Value.fieldOr
        rw [if_pos hmap]
        refine congrArg Except.ok ?_
        unfold Value.text? at hs
        split at hs
        · next heq => rw [heq, Option.some.inj hs]
        · cases hs
      unfold identity
      refine bind_eq_ok.2 ⟨settled, toOption_eq_some.1 hsettled, ?_⟩
      exact bind_eq_ok.2 ⟨_, hfield hname, bind_eq_ok.2 ⟨_, hfield hlocation, rfl⟩⟩
  · cases h

/-- Where every node tells its parameter by texts, the nodes of an operation are put over those of
its path. -/
theorem merge_eq_ok {ofPath ofOperation : Value} (hP : ofPath.membersOrNone = .ok P)
    (hO : ofOperation.membersOrNone = .ok O) (hkeys : ∀ p ∈ P ++ O, (doc.parameterKey? p).isSome) :
    merge doc ofPath ofOperation = .ok (overriding doc.parameterKey? P O) := by
  have hidentity : ∀ p ∈ P ++ O,
      identity doc p = .ok (keyValue ((doc.parameterKey? p).getD ("", ""))) := by
    intro p hp
    obtain ⟨k, hk⟩ := Option.isSome_iff_exists.1 (hkeys p hp)
    rw [hk]
    exact identity_eq_ok hk
  have hown := mapM_eq_ok fun p hp => hidentity p (List.mem_append_right _ hp)
  have hkept : P.filterM (fun p => do
      let i ← identity doc p
      return !(O.map fun o => keyValue ((doc.parameterKey? o).getD ("", ""))).any (·.same i)) =
      .ok (P.filter fun p => !(O.map doc.parameterKey?).contains (doc.parameterKey? p)) := by
    refine filterM_eq_ok fun p hp => ?_
    obtain ⟨k, hk⟩ := Option.isSome_iff_exists.1 (hkeys p (List.mem_append_left _ hp))
    refine bind_eq_ok.2 ⟨_, identity_eq_ok hk, congrArg (fun b => Except.ok !b) ?_⟩
    rw [hk, Bool.eq_iff_iff, List.any_map, List.any_eq_true, List.contains_iff_mem, List.mem_map]
    refine exists_congr fun o => and_congr_right fun ho => ?_
    obtain ⟨l, hl⟩ := Option.isSome_iff_exists.1 (hkeys o (List.mem_append_right _ ho))
    simp [hl, same_keyValue]
  unfold merge
  exact bind_eq_ok.2 ⟨O, hO, bind_eq_ok.2 ⟨_, hown, bind_eq_ok.2 ⟨P, hP,
    bind_eq_ok.2 ⟨_, hkept, rfl⟩⟩⟩⟩

theorem overrides_overriding (hkeys : ∀ p ∈ P ++ O, (doc.parameterKey? p).isSome) :
    Overrides doc P O (overriding doc.parameterKey? P O) := by
  refine ⟨rfl, fun _ => mem_keys_overriding, filter_overriding, nodup_overriding, ?_⟩
  refine (merge_eq_ok (Value.membersOrNone_seq _) (Value.membersOrNone_seq O)
    fun p hp => hkeys p ?_).trans
    (congrArg Except.ok overriding_overriding)
  rcases List.mem_append.1 hp with hp | hp
  · exact (List.mem_append.1 hp).elim
      (fun hp => List.mem_append_left _ (List.mem_of_mem_filter hp)) (List.mem_append_right _)
  · exact List.mem_append_right _ hp

theorem exists_overrides_of_merge {ofPath ofOperation : Value} {M : List Value}
    (h : merge doc ofPath ofOperation = .ok M) :
    ∃ P O, ofPath.membersOrNone = .ok P ∧ ofOperation.membersOrNone = .ok O ∧
      ((∀ p ∈ P ++ O, (doc.parameterKey? p).isSome) → Overrides doc P O M) := by
  have hmerge := h
  unfold merge at h
  obtain ⟨O, hO, h⟩ := bind_eq_ok.1 h
  obtain ⟨_, -, h⟩ := bind_eq_ok.1 h
  obtain ⟨P, hP, -⟩ := bind_eq_ok.1 h
  refine ⟨P, O, hP, hO, fun hkeys => ?_⟩
  obtain rfl := Except.ok.inj (hmerge.symm.trans (merge_eq_ok hP hO hkeys))
  exact overrides_overriding hkeys

end Parameters

/-- Where a document declares an operation: its path, what stands there, and the node that stands
under its method. -/
structure Declared where
  path : Scalar
  item : Value
  method : Method
  node : Value

namespace Declared

/-- The operation that an entry of a path declares, if its key is a method and its value a
mapping. -/
def ofMember? (path : Scalar) (item : Value) (e : Scalar × Value) : Option Declared :=
  if e.2.isMap then
    ((Value.scalar e.1).text?.bind Method.ofKey?).map fun m => ⟨path, item, m, e.2⟩
  else none

/-- The operation is read off its place: path, method, identifier and responses, and its parameters
if all of them tell name and location. -/
structure IsReadAs (doc : Document) (x : Declared) (o : Operation) : Prop where
  path : Fields.reading (.scalar x.path) = .ok o.path
  method : o.method = x.method
  ownId : (x.node.get "operationId").isFilled = true →
    Fields.reading (x.node.get "operationId") = .ok o.operationId
  derivedId : (x.node.get "operationId").isFilled = false →
    o.operationId = Name.ofOperation x.method.key o.path
  responses : IsTable (((x.node.get "responses").entries?.getD []).map fun e => (e.1.text, e.2))
    o.responses
  parameters : ∃ P O, (x.item.get "parameters").membersOrNone = .ok P ∧
    (x.node.get "parameters").membersOrNone = .ok O ∧
    ((∀ p ∈ P ++ O, (doc.parameterKey? p).isSome) → Parameters.Overrides doc P O o.parameters)

end Declared

/-- The operations that a document declares, in its order. -/
def Document.declared (doc : Document) : List Declared :=
  ((doc.root.get "paths").entries?.getD []).flatMap fun e =>
    (e.2.entries?.getD []).filterMap (Declared.ofMember? e.1 e.2)

namespace Declared

variable {doc : Document}

/-- Responses are kept by the texts of their keys. -/
theorem isTable_ofPairs (es : Value.Entries) : IsTable (es.map fun e => (e.1.text, e.2))
    ((Value.ofPairs (es.map fun e => (.str e.1.text, e.2))).map fun e => (e.1.text, e.2)) := by
  have heq : (Value.ofPairs (es.map fun e => (.str e.1.text, e.2))).map (fun e => (e.1.text, e.2)) =
      tabulate (es.map fun e => (e.1.text, e.2)) := by
    have h := Value.ofPairs_str (es.map fun e => (e.1.text, e.2))
    rw [List.map_map] at h
    refine (congrArg (List.map fun e : Scalar × Value => (e.1.text, e.2)) h).trans ?_
    rw [List.map_map]
    exact List.map_id _
  rw [heq]
  exact isTable_tabulate _

/-- The identifier of an operation is its own one if that is filled, and made of method and path
otherwise. -/
theorem identifierOf_eq_ok {path : Scalar} {method : Method} {node v : Value}
    (h : Operation.identifierOf path method node = .ok v) :
    ((node.get "operationId").isFilled = true → node.get "operationId" = v) ∧
      ((node.get "operationId").isFilled = false →
        ∃ p, path = .str p ∧ v = .str (Name.ofOperation method.key p)) := by
  unfold Operation.identifierOf Value.filled? at h
  cases hfilled : (node.get "operationId").isFilled with
  | true =>
      rw [hfilled, if_pos rfl] at h
      exact ⟨fun _ => Except.ok.inj h, nofun⟩
  | false =>
      rw [hfilled, if_neg Bool.false_ne_true] at h
      refine ⟨nofun, fun _ => ?_⟩
      cases path with
      | str p => exact ⟨p, rfl, (Except.ok.inj h).symm⟩
      | _ => cases h

theorem isReadAs_of_ofNode {x : Declared} {o : Operation}
    (h : Operation.ofNode doc x.path x.method (x.item.get "parameters") x.node = .ok o) :
    x.IsReadAs doc o := by
  rw [Operation.ofNode_eq] at h
  split at h
  · next parameters hmerge =>
      obtain ⟨operationId, hid, h⟩ := bind_eq_ok.1 h
      obtain ⟨tags, -, h⟩ := bind_eq_ok.1 h
      obtain ⟨responses, hresponses, h⟩ := bind_eq_ok.1 h
      obtain ⟨hissues, rfl⟩ := (Fields.fill_eq_ok_iff _ _ _ _).1 h
      have hnone := List.filterMap_eq_nil_iff.1 hissues
      obtain ⟨path, hpath⟩ := Fields.text_eq_none_iff.1 (hnone _ List.mem_cons_self)
      obtain ⟨id, hid'⟩ := Fields.text_eq_none_iff.1
        (hnone _ (List.mem_cons_of_mem _ List.mem_cons_self))
      obtain ⟨hown, hderived⟩ := identifierOf_eq_ok hid
      constructor
      case path => rw [hpath, Fields.textOf_of_reading hpath]
      case method => rfl
      case ownId =>
        intro hfilled
        rw [hown hfilled, hid', Fields.textOf_of_reading hid']
      case derivedId =>
        intro hfilled
        obtain ⟨p, hp, rfl⟩ := hderived hfilled
        rw [hp]
        rfl
      case responses =>
        rw [Value.entries?_of_entriesOrNone hresponses]
        exact isTable_ofPairs responses
      case parameters => exact Parameters.exists_overrides_of_merge hmerge
  · cases h

/-- Reads the operation that a place declares. -/
def read (doc : Document) (x : Declared) : Except Fault Operation :=
  Operation.ofNode doc x.path x.method (x.item.get "parameters") x.node

/-- An entry of a path is read exactly if it declares an operation. -/
theorem ofField?_eq (doc : Document) (path : Scalar) (item : Value) (e : Scalar × Value) :
    Operation.ofField? doc path (item.get "parameters") e =
      (ofMember? path item e).elim (.ok none) fun x => (x.read doc).map some := by
  obtain ⟨key, node⟩ := e
  cases hmap : node.isMap with
  | false =>
      rw [Operation.ofField?_of_not_map hmap]
      simp only [ofMember?, hmap, Bool.false_eq_true, if_false]
      rfl
  | true =>
      obtain ⟨origin, es, rfl⟩ := Value.exists_of_isMap hmap
      cases key with
      | str k =>
          have hentry : ofMember? path item (.str k, .map origin es) =
              (Method.ofKey? k).map fun m => ⟨path, item, m, .map origin es⟩ := rfl
          rw [hentry]
          unfold Operation.ofField?
          dsimp only
          cases Method.ofKey? k <;> rfl
      | _ => rfl

theorem rel_of_ofField? {path : Scalar} {item : Value} {e : Scalar × Value} {o? : Option Operation}
    (h : Operation.ofField? doc path (item.get "parameters") e = .ok o?) :
    Option.Rel (IsReadAs doc) (ofMember? path item e) o? := by
  rw [ofField?_eq] at h
  cases hx : ofMember? path item e with
  | none =>
      rw [hx] at h
      obtain rfl := Except.ok.inj h
      exact .none
  | some x =>
      rw [hx] at h
      obtain ⟨o, ho, rfl⟩ := map_eq_ok.1 h
      exact .some (isReadAs_of_ofNode ho)

theorem forall₂_of_listOfPath {path : Scalar} {item : Value} {os : List Operation}
    (h : Operation.listOfPath doc path item = .ok os) :
    List.Forall₂ (IsReadAs doc) ((item.entries?.getD []).filterMap (ofMember? path item)) os := by
  cases item with
  | map origin es =>
      rw [Operation.listOfPath_map] at h
      obtain ⟨read, hread, hpure⟩ := bind_eq_ok.1 h
      obtain rfl := Except.ok.inj hpure
      exact List.rel_filterMap (P := IsReadAs doc) (fun _ _ he => rel_of_ofField? he)
        (forall₂_of_mapM_eq_ok hread)
  | _ =>
      obtain rfl := Except.ok.inj h
      exact .nil

end Declared

/-- What operations are read as does not depend on their origins. -/
theorem Declared.forall₂_numbered {doc : Document} {xs : List Declared}
    {operations : List Operation} (h : List.Forall₂ (IsReadAs doc) xs operations) :
    List.Forall₂ (IsReadAs doc) xs (Operation.numbered operations) := by
  unfold Operation.numbered
  rw [List.forall₂_map_right_iff]
  suffices hfrom : ∀ n, List.Forall₂ (fun x a => IsReadAs doc x { a.1 with origin := a.2 }) xs
      (operations.zipIdx n) from hfrom 0
  induction h with
  | nil => exact fun _ => .nil
  | cons ho _ ih =>
      exact fun n => .cons ⟨ho.path, ho.method, ho.ownId, ho.derivedId, ho.responses, ho.parameters⟩
        (ih (n + 1))

/-- Every document that a description is read off declares its operations, in this order, and each
of them is read off its place.  And wherever the nodes of a path and those of an operation tell
name and location of their parameters, the ones are put over the others. -/
theorem Description.enumerates_of_ofDocument {doc : Document} {version : String} {d : Description}
    (h : ofDocument doc version = .ok d) :
    List.Forall₂ (Declared.IsReadAs doc) doc.declared d.operations ∧
      ∀ P O, (∀ p ∈ P ++ O, (doc.parameterKey? p).isSome) →
        ∃ M, Parameters.merge doc (.seq P) (.seq O) = .ok M ∧ Parameters.Overrides doc P O M := by
  constructor
  · unfold ofDocument at h
    obtain ⟨information, -, h⟩ := bind_eq_ok.1 h
    obtain ⟨servers, -, h⟩ := bind_eq_ok.1 h
    obtain ⟨operations, hoperations, h⟩ := bind_eq_ok.1 h
    obtain ⟨schemes, -, h⟩ := bind_eq_ok.1 h
    obtain ⟨-, rfl⟩ := (Fields.fill_eq_ok_iff _ _ _ _).1 h
    unfold Operation.listOfRoot at hoperations
    obtain ⟨paths, hpaths, hoperations⟩ := bind_eq_ok.1 hoperations
    obtain ⟨read, hread, hpure⟩ := bind_eq_ok.1 hoperations
    obtain rfl := Except.ok.inj hpure
    unfold Document.declared
    rw [Value.entries?_of_entriesOrNone hpaths, List.flatMap_def]
    refine Declared.forall₂_numbered (List.rel_flatten (List.forall₂_map_left_iff.2 ?_))
    exact (forall₂_of_mapM_eq_ok hread).imp fun _ _ he => Declared.forall₂_of_listOfPath he
  · intro P O hkeys
    exact ⟨_, Parameters.merge_eq_ok (Value.membersOrNone_seq P)
      (Value.membersOrNone_seq O) hkeys, Parameters.overrides_overriding hkeys⟩

/-- The operations of a description are told apart by their origins. -/
theorem Description.origins_of_ofDocument {doc : Document} {version : String} {d : Description}
    (h : ofDocument doc version = .ok d) :
    d.operations.map (·.origin) = List.range d.operations.length := by
  unfold ofDocument at h
  obtain ⟨information, -, h⟩ := bind_eq_ok.1 h
  obtain ⟨servers, -, h⟩ := bind_eq_ok.1 h
  obtain ⟨operations, hoperations, h⟩ := bind_eq_ok.1 h
  obtain ⟨schemes, -, h⟩ := bind_eq_ok.1 h
  obtain ⟨-, rfl⟩ := (Fields.fill_eq_ok_iff _ _ _ _).1 h
  obtain ⟨paths, -, hoperations⟩ := bind_eq_ok.1 hoperations
  obtain ⟨read, -, hpure⟩ := bind_eq_ok.1 hoperations
  obtain rfl := Except.ok.inj hpure
  dsimp only
  rw [Operation.numbered, List.map_map, List.length_map, List.length_zipIdx, List.range_eq_range']
  exact List.zipIdx_map_snd 0 read.flatten

/-- A path with two operations.  One has a limit of its own in place of a limit elsewhere; the other
one has no identifier, and two responses under keys of one text. -/
def petPaths : Document := .ofValue <| .map 0 [
  (.str "info", .map 1 [(.str "title", .str "Pets"), (.str "version", .str "1")]),
  (.str "paths", .map 2 [
    (.str "/pets/{petId}", .map 3 [
      (.str "parameters", .seq [
        .map 4 [(.str "name", .str "petId"), (.str "in", .str "path")],
        .map 5 [(.str "$ref", .str "#/components/parameters/Limit")]]),
      (.str "get", .map 6 [
        (.str "operationId", .str "getPet"),
        (.str "parameters", .seq [.map 7 [(.str "name", .str "limit"), (.str "in", .str "query"),
          (.str "required", .bool true)]])]),
      (.str "put", .null),
      (.str "delete", .map 8 [
        (.str "responses", .map 9 [(.int 204, .map 10 []), (.str "404", .map 11 []),
          (.str "204", .map 12 [])])])]),
    (.str "/owners", .str "none")]),
  (.str "components", .map 13 [(.str "parameters", .map 14 [
    (.str "Limit", .map 15 [(.str "name", .str "limit"), (.str "in", .str "query")])])])]

/-- Identifier, keys of parameters and keys of responses of each operation. -/
def Description.outline (d : Description) :
    List (String × List (String × String) × List String) :=
  d.operations.map fun o =>
    (o.operationId, o.parameters.filterMap d.document.parameterKey?, o.responses.map (·.1))

theorem outline_petPaths : (Description.ofDocument petPaths "3.0.0").toOption.map (·.outline) =
    some [("getPet", [("petId", "path"), ("limit", "query")], []),
      ("deletePetsPetId", [("petId", "path"), ("limit", "query")], ["204", "404"])] := by
  decide +kernel

theorem enumerates_petPaths : ∃ d, Description.ofDocument petPaths "3.0.0" = .ok d ∧
    d.operations.map (·.operationId) = ["getPet", "deletePetsPetId"] ∧
    List.Forall₂ (Declared.IsReadAs petPaths) petPaths.declared d.operations := by
  obtain ⟨d, hd, houtline⟩ := Option.map_eq_some_iff.1 outline_petPaths
  have hids := congrArg (List.map (·.1)) houtline
  unfold Description.outline at hids
  rw [List.map_map] at hids
  have hd := toOption_eq_some.1 hd
  exact ⟨d, hd, hids, (Description.enumerates_of_ofDocument hd).1⟩

end OpenApiClient
