import OpenApiClient.Operation.Classification
import OpenApiClient.Proofs.Table

/-!
# What classes make of the operations placed on them

For each identifier, where it is first met, a class holds the operation that came last, and it
uses no types but those of its operations.
-/

namespace OpenApiClient

/-- Looking for a member finds it. -/
theorem find?_beq {α : Type} [BEq α] [LawfulBEq α] (l : List α) (a : α) :
    l.find? (· == a) = if l.contains a then some a else none := by
  induction l with
  | nil => rfl
  | cons b l ih =>
      rw [List.find?_cons, ih, List.contains_cons, BEq.comm]
      cases hb : a == b with
      | true => simp [eq_of_beq hb]
      | false => rfl

/-- What has a key of its own is found by it. -/
theorem find?_key_of_nodup {α β : Type} [BEq β] [LawfulBEq β] {f : α → β} {l : List α}
    (h : (l.map f).Nodup) {a : α} (ha : a ∈ l) : l.find? (f · == f a) = some a := by
  induction l with
  | nil => cases ha
  | cons b l ih =>
      obtain ⟨hb, hl⟩ := List.nodup_cons.1 h
      rw [List.find?_cons]
      rcases List.mem_cons.1 ha with rfl | ha
      · rw [beq_self_eq_true]
      · have hne : f b ≠ f a := fun heq => hb (heq ▸ List.mem_map_of_mem ha)
        rw [beq_false_of_ne hne, ih hl ha]

/-- What is listed under keys is found under them. -/
theorem lookup_filterMap_map {α β : Type} [BEq α] [LawfulBEq α] (f : α → Option β) (keys : List α)
    (a : α) : (keys.filterMap fun k => (f k).map (k, ·)).lookup a =
      if keys.contains a then f a else none := by
  induction keys with
  | nil => rfl
  | cons k keys ih =>
      rw [List.contains_cons, List.filterMap_cons]
      by_cases hk : a = k
      · subst hk
        cases hf : f a with
        | none => simp [ih, hf]
        | some b => simp
      · cases f k with
        | none => simp [ih, hk]
        | some b => simp [List.lookup_cons, beq_false_of_ne hk, ih]

namespace Tag

theorem targets_eq (tags : List String) : targets tags = (tags.filterMap target?).eraseDups :=
  foldl_addNew _

theorem nodup_targets (tags : List String) : (targets tags).Nodup := by
  rw [targets_eq]
  exact nodup_eraseDups _

end Tag

/-- Whether a tag places the operation on a class. -/
def Operation.isOn (o : Operation) (kind : ClassKind) (name : String) : Bool :=
  o.tags.any (Tag.target? · == some (kind, name))

theorem Operation.mem_targets_iff {o : Operation} {kind : ClassKind} {name : String} :
    (kind, name) ∈ Tag.targets o.tags ↔ o.isOn kind name = true := by
  rw [Tag.targets_eq, List.mem_eraseDups]
  simp [isOn]

/-- The first resource that the tags of an operation name. -/
def Operation.firstResource? (o : Operation) : Option String :=
  ((Tag.targets o.tags).find? (·.1 = .resource)).map (·.2)

theorem Operation.isOn_of_firstResource? {o : Operation} {name : String}
    (h : o.firstResource? = some name) : o.isOn .resource name = true := by
  obtain ⟨⟨kind, name'⟩, ht, rfl⟩ := Option.map_eq_some_iff.1 h
  have hkind : kind = .resource := by simpa using List.find?_some ht
  rw [← mem_targets_iff, ← hkind]
  exact List.mem_of_find?_eq_some ht

namespace PlacedOperation

/-- The identifier under which the operation is placed. -/
def id (p : PlacedOperation) : String := p.operation.operationId

/-- The types that a class of a kind uses for the operation. -/
def uses (p : PlacedOperation) (kind : ClassKind) : List String :=
  (if kind = .manager then p.operation.firstResource?.toList else []) ++
    p.responses.referencedTypes

end PlacedOperation

namespace Bucket

/-- What tells a class from others: its kind and its name. -/
def key (b : Bucket) : ClassKind × String := (b.kind, b.name)

/-- The class with an operation placed on it, using the types of the operation. -/
def receive (b : Bucket) (p : PlacedOperation) : Bucket := (p.uses b.kind).foldl addUse (b.place p)

/-- The last operation of an identifier. -/
def last? (ps : List PlacedOperation) (id : String) : Option PlacedOperation :=
  ps.reverse.find? (·.id == id)

/-- For each identifier, where it is first met, the operation that comes last. -/
def routesOf (ps : List PlacedOperation) : List (String × PlacedOperation) :=
  (ps.map (·.id)).eraseDups.filterMap fun id => (last? ps id).map (id, ·)

/-- What a class makes of the operations that are placed on it. -/
def ofPlaced (kind : ClassKind) (name : String) (ps : List PlacedOperation) : Bucket :=
  ps.foldl receive { kind, name }

/-- Noting uses changes nothing but the uses. -/
theorem exists_foldl_addUse (types : List String) (b : Bucket) :
    ∃ uses, types.foldl addUse b = { b with uses } ∧
      ∀ type ∈ uses, type ∈ b.uses ∨ type ∈ types := by
  induction types generalizing b with
  | nil => exact ⟨b.uses, rfl, fun type h => .inl h⟩
  | cons type types ih =>
      obtain ⟨uses, heq, huses⟩ := ih (b.addUse type)
      rw [List.foldl_cons, heq]
      unfold addUse at huses ⊢
      split at huses
      · next hold =>
          rw [if_pos hold]
          exact ⟨uses, rfl, fun t ht => (huses t ht).imp_right (List.mem_cons_of_mem _)⟩
      · next hnew =>
          rw [if_neg hnew]
          refine ⟨uses, rfl, fun t ht => ?_⟩
          rcases huses t ht with h | h
          · rcases List.mem_append.1 h with h | h
            · exact .inl h
            · exact .inr (List.mem_cons.2 (.inl (List.mem_singleton.1 h)))
          · exact .inr (List.mem_cons_of_mem _ h)

theorem exists_receive (b : Bucket) (p : PlacedOperation) :
    ∃ uses, b.receive p = { b.place p with uses } ∧
      ∀ type ∈ uses, type ∈ b.uses ∨ type ∈ p.uses b.kind := by
  obtain ⟨uses, heq, huses⟩ := exists_foldl_addUse (p.uses b.kind) (b.place p)
  refine ⟨uses, heq, fun type h => ?_⟩
  have huses' := huses type h
  unfold place at huses'
  dsimp only at huses'
  split at huses' <;> exact huses'

@[simp] theorem key_addUse (b : Bucket) (type : String) : (b.addUse type).key = b.key := by
  unfold addUse
  split <;> rfl

@[simp] theorem key_place (b : Bucket) (p : PlacedOperation) : (b.place p).key = b.key := by
  unfold place
  dsimp only
  split <;> rfl

@[simp] theorem key_foldl_addUse (types : List String) (b : Bucket) :
    (types.foldl addUse b).key = b.key := by
  induction types generalizing b with
  | nil => rfl
  | cons type types ih => rw [List.foldl_cons, ih, key_addUse]

@[simp] theorem key_receive (b : Bucket) (p : PlacedOperation) : (b.receive p).key = b.key := by
  rw [receive, key_foldl_addUse, key_place]

@[simp] theorem key_ofPlaced (kind : ClassKind) (name : String) (ps : List PlacedOperation) :
    (ofPlaced kind name ps).key = (kind, name) := by
  induction ps using List.reverseRecOn with
  | nil => rfl
  | append_singleton ps p ih =>
      rw [ofPlaced, List.foldl_append, List.foldl_cons, List.foldl_nil, key_receive]
      exact ih

@[simp] theorem kind_ofPlaced (kind : ClassKind) (name : String) (ps : List PlacedOperation) :
    (ofPlaced kind name ps).kind = kind :=
  congrArg Prod.fst (key_ofPlaced kind name ps)

@[simp] theorem name_ofPlaced (kind : ClassKind) (name : String) (ps : List PlacedOperation) :
    (ofPlaced kind name ps).name = name :=
  congrArg Prod.snd (key_ofPlaced kind name ps)

theorem last?_concat (ps : List PlacedOperation) (p : PlacedOperation) (id : String) :
    last? (ps ++ [p]) id = if id = p.id then some p else last? ps id := by
  unfold last?
  rw [List.reverse_append, List.reverse_singleton, List.singleton_append, List.find?_cons]
  by_cases hid : id = p.id
  · simp [hid]
  · simp [hid, beq_false_of_ne (Ne.symm hid)]

theorem exists_last? {ps : List PlacedOperation} {id : String} (h : id ∈ ps.map (·.id)) :
    ∃ p, last? ps id = some p := by
  obtain ⟨p, hp, rfl⟩ := List.mem_map.1 h
  exact Option.isSome_iff_exists.1 (List.find?_isSome.2 ⟨p, by simpa using hp, by simp⟩)

theorem keys_routesOf (ps : List PlacedOperation) :
    (routesOf ps).map (·.1) = (ps.map (·.id)).eraseDups := by
  unfold routesOf
  rw [List.map_filterMap]
  conv_rhs => rw [← List.filterMap_some (l := (ps.map (·.id)).eraseDups)]
  refine List.filterMap_congr fun id hid => ?_
  obtain ⟨p, hp⟩ := exists_last? (List.mem_eraseDups.1 hid)
  rw [hp]
  rfl

/-- What is held under an identifier is the last operation of it. -/
theorem last?_of_mem_routesOf {ps : List PlacedOperation} {q : String × PlacedOperation}
    (h : q ∈ routesOf ps) : last? ps q.1 = some q.2 ∧ q.2.id = q.1 := by
  obtain ⟨id, -, hq⟩ := List.mem_filterMap.1 h
  obtain ⟨p, hp, rfl⟩ := Option.map_eq_some_iff.1 hq
  exact ⟨hp, by simpa using List.find?_some hp⟩

theorem any_routesOf (ps : List PlacedOperation) (id : String) :
    (routesOf ps).any (·.1 == id) = ps.any (·.id == id) := by
  have hkeys : (routesOf ps).any (·.1 == id) = ((routesOf ps).map (·.1)).any (· == id) := by
    rw [List.any_map]
    rfl
  rw [hkeys, keys_routesOf, Bool.eq_iff_iff]
  simp

theorem last?_eq_none_iff {ps : List PlacedOperation} {id : String} :
    last? ps id = none ↔ id ∉ ps.map (·.id) := by
  simp [last?]

theorem lookup_routesOf (ps : List PlacedOperation) (id : String) :
    (routesOf ps).lookup id = last? ps id := by
  rw [routesOf, lookup_filterMap_map]
  split
  · rfl
  · next hnew =>
      refine (last?_eq_none_iff.2 fun hid => hnew ?_).symm
      simpa using hid

/-- An operation takes the place of the one that has its identifier, or comes last. -/
theorem routes_place {b : Bucket} {ps : List PlacedOperation} (h : b.routes = routesOf ps)
    (p : PlacedOperation) : (b.place p).routes = routesOf (ps ++ [p]) := by
  have htaken : b.routes.any (·.1 == p.operation.operationId) = (ps.map (·.id)).contains p.id := by
    rw [h, any_routesOf, Bool.eq_iff_iff]
    simp [PlacedOperation.id]
  unfold place
  dsimp only
  rw [htaken]
  unfold routesOf at h ⊢
  rw [List.map_append, List.map_singleton, eraseDups_concat]
  split
  · rw [h, List.map_filterMap]
    refine List.filterMap_congr fun id hid => ?_
    obtain ⟨old, hold⟩ := exists_last? (List.mem_eraseDups.1 hid)
    rw [last?_concat, hold]
    rw [Option.map_some, Option.map_some]
    by_cases heq : id = p.operation.operationId
    · rw [if_pos heq, if_pos (show id = p.id from heq), Option.map_some]
    · rw [if_neg heq, if_neg (show id ≠ p.id from heq), Option.map_some]
  · next hnew =>
      rw [List.filterMap_append, h]
      dsimp only
      congr 1
      · refine List.filterMap_congr fun id hid => ?_
        have hne : id ≠ p.id := by
          rintro rfl
          exact hnew (by simpa using List.mem_eraseDups.1 hid)
        rw [last?_concat, if_neg hne]
      · rw [List.filterMap_cons, last?_concat, if_pos rfl]
        rfl

theorem ofPlaced_concat (kind : ClassKind) (name : String) (ps : List PlacedOperation)
    (p : PlacedOperation) : ofPlaced kind name (ps ++ [p]) = (ofPlaced kind name ps).receive p := by
  rw [ofPlaced, List.foldl_append]
  rfl

theorem routes_ofPlaced (kind : ClassKind) (name : String) (ps : List PlacedOperation) :
    (ofPlaced kind name ps).routes = routesOf ps := by
  induction ps using List.reverseRecOn with
  | nil => rfl
  | append_singleton ps p ih =>
      obtain ⟨uses, heq, -⟩ := (ofPlaced kind name ps).exists_receive p
      rw [ofPlaced_concat, heq]
      exact routes_place ih p

theorem route?_ofPlaced (kind : ClassKind) (name : String) (ps : List PlacedOperation)
    (id : String) : (ofPlaced kind name ps).route? id = last? ps id := by
  rw [route?, routes_ofPlaced, lookup_routesOf]

/-- A class uses nothing but what its operations use. -/
theorem exists_of_mem_uses_ofPlaced {kind : ClassKind} {name : String}
    {ps : List PlacedOperation} {type : String} (h : type ∈ (ofPlaced kind name ps).uses) :
    ∃ p ∈ ps, type ∈ p.uses kind := by
  induction ps using List.reverseRecOn with
  | nil => cases h
  | append_singleton ps p ih =>
      obtain ⟨uses, heq, huses⟩ := (ofPlaced kind name ps).exists_receive p
      rw [ofPlaced_concat, heq] at h
      rcases huses type h with h | h
      · obtain ⟨q, hq, h⟩ := ih h
        exact ⟨q, List.mem_append_left _ hq, h⟩
      · rw [kind_ofPlaced] at h
        exact ⟨p, by simp, h⟩

end Bucket

end OpenApiClient
