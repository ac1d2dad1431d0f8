import OpenApiClient.Operation.Response
import OpenApiClient.Proofs.Renaming

/-!
# Types that may be null

A schema says that a value may be null by writing its type as a list: the type and `null`, in either
order.  A value *respells* another one if some of its schemas write their types so.  Which of them
may do so depends on their *roles*, that is on what a value is for in the document: the schema of a
property is read otherwise than that of its items, and the same keys mean other things elsewhere.
-/

namespace OpenApiClient

open Walk

/-- What a value is for in a document. -/
inductive Role where
  /-- Nothing that holds a schema. -/
  | fixed
  | root
  | components
  | path
  | operation
  | request
  /-- A media type of a request. -/
  | requestMedia
  /-- The schema of a request, described in place. -/
  | body
  /-- A schema, or a parameter or response, which may hold schemas. -/
  | node
  /-- The schema of a property. -/
  | property
  /-- The items of a property. -/
  | items
  /-- A media type of a response. -/
  | media
  /-- The schema of a response. -/
  | reply
  /-- A mapping of values of one role. -/
  | entries (r : Role)
  /-- A list of values of one role. -/
  | list (r : Role)
  deriving DecidableEq, Repr

namespace Role

/-- The roles of the fields of a schema, a parameter or a response. -/
def ofNodeField (key : String) : Role :=
  if key = "properties" then .entries .property
  else if key = "content" then .entries .media
  else if key ∈ ["allOf", "anyOf", "oneOf"] then .list .node
  else if key ∈ ["items", "schema", "additionalProperties", "not"] then .node
  else .fixed

/-- The role of the field under a name. -/
def named (r : Role) (key : String) : Role :=
  match r with
  | .fixed => .fixed
  | .root =>
    if key = "paths" then .entries .path else if key = "components" then .components else .fixed
  | .components => if key = "securitySchemes" then .fixed else .entries .node
  | .path =>
    if key = "parameters" then .list .node
    else if (Method.ofKey? key).isSome then .operation
    else .fixed
  | .operation =>
    if key = "parameters" then .list .node
    else if key = "responses" then .entries .node
    else if key = "requestBody" then .request
    else .fixed
  | .request => if key = "content" then .entries .requestMedia else .fixed
  | .requestMedia => if key = "schema" then .body else .fixed
  | .body => if key = "properties" then .entries .node else ofNodeField key
  | .property => if key = "items" then .items else ofNodeField key
  | .node | .items | .reply => ofNodeField key
  | .media => if key = "schema" then .reply else .fixed
  | .entries r | .list r => r

/-- The role of what stands under a key. -/
def field (r : Role) (key : Scalar) : Role :=
  match r, key with
  | .entries r, _ => r
  | .list r, _ => r
  | r, .str key => r.named key
  | _, _ => .fixed

/-- Whether a value of this role is a schema, or may be one. -/
def isSchema : Role → Bool
  | .body | .node | .property | .items | .reply => true
  | _ => false

/-- Whether the type of a value is read the same if it is a list with `null`.  The type of items
that a property describes in place is read as a text only, and so is that of a response, which
matters if it is a list of an entity. -/
def readsLists (r : Role) (v : Value) : Bool :=
  match r with
  | .body | .node | .property => true
  | .items => v.isReference
  | .reply => (Response.entityPointer? v).all (!·.2)
  | _ => false

end Role

namespace Value

/-- Whether a value is the list of a type and `null`, in either order. -/
def orNull : Value → Value → Bool
  | .scalar (.str type), .seq [a, b] =>
    type ≠ "null" && (a = .str type && b = .str "null" || a = .str "null" && b = .str type)
  | _, _ => false

mutual

/-- Whether a value is written as another one of the same role, apart from its origins and from
types that are lists with `null`, where these are free. -/
def respells (free : Role → Value → Bool) (r : Role) (v w : Value) : Bool :=
  decide (Alike v w) ||
    match r, v, w with
    | .fixed, _, _ => false
    | .list r, .seq vs, .seq ws => respellsItems free r vs ws
    | .list _, _, _ => false
    | r, .map origin es, .map _ fs =>
      respellsEntries free r (free r (.map origin es)) es fs
    | _, _, _ => false

/-- `respells` item by item. -/
def respellsItems (free : Role → Value → Bool) (r : Role) : List Value → List Value → Bool
  | [], [] => true
  | v :: vs, w :: ws => respells free r v w && respellsItems free r vs ws
  | _, _ => false

/-- `respells` entry by entry. -/
def respellsEntries (free : Role → Value → Bool) (r : Role) (own : Bool) :
    Entries → Entries → Bool
  | [], [] => true
  | (k, v) :: es, (l, w) :: fs =>
    l = k && (respells free (r.field k) v w || own && k = .str "type" && orNull v w) &&
      respellsEntries free r own es fs
  | _, _ => false

end

variable {free : Role → Value → Bool} {r : Role} {v w : Value}

/-- How an entry of a mapping respells another one. -/
def RespelledEntry (free : Role → Value → Bool) (r : Role) (own : Bool) (e f : Scalar × Value) :
    Prop :=
  f.1 = e.1 ∧ (e.2.respells free (r.field e.1) f.2 ∨ own ∧ e.1 = .str "type" ∧ orNull e.2 f.2)

theorem respells_of_alike (h : Alike v w) : v.respells free r w := by
  unfold respells
  rw [decide_eq_true h, Bool.true_or]

theorem respellsItems_iff {vs ws : List Value} :
    respellsItems free r vs ws ↔ List.Forall₂ (fun v w => v.respells free r w) vs ws := by
  induction vs generalizing ws with
  | nil => cases ws <;> simp [respellsItems]
  | cons v vs ih => cases ws <;> simp [respellsItems, ih]

theorem respellsEntries_iff {own : Bool} {es fs : Entries} :
    respellsEntries free r own es fs ↔ List.Forall₂ (RespelledEntry free r own) es fs := by
  induction es generalizing fs with
  | nil => cases fs <;> simp [respellsEntries]
  | cons e es ih =>
      cases fs with
      | nil => simp [respellsEntries]
      | cons f fs => simp [respellsEntries, RespelledEntry, ih, and_assoc]

theorem respells_fixed_iff : v.respells free .fixed w ↔ Alike v w := by
  unfold respells
  simp

theorem respelledEntry_of_alike {own : Bool} {e f : Scalar × Value}
    (h : f.1 = e.1 ∧ Alike e.2 f.2) : RespelledEntry free r own e f :=
  ⟨h.1, .inl (respells_of_alike h.2)⟩

/-- Values that are not alike are lists or mappings, the parts of which respell each other. -/
theorem respells_cases (h : v.respells free r w) : Alike v w ∨
    (∃ q vs ws, r = .list q ∧ v = .seq vs ∧ w = .seq ws ∧
      List.Forall₂ (fun v w => v.respells free q w) vs ws) ∨
    ∃ origin es origin' fs, (∀ q, r ≠ .list q) ∧ v = .map origin es ∧ w = .map origin' fs ∧
      List.Forall₂ (RespelledEntry free r (free r v)) es fs := by
  unfold respells at h
  rw [Bool.or_eq_true, decide_eq_true_eq] at h
  refine h.imp_right fun h => ?_
  split at h
  · cases h
  · exact .inl ⟨_, _, _, rfl, rfl, rfl, respellsItems_iff.1 h⟩
  · cases h
  · next hlist _ => exact .inr ⟨_, _, _, _, hlist, rfl, rfl, respellsEntries_iff.1 h⟩
  · cases h

/-- A mapping is respelled by a mapping with the same keys. -/
theorem exists_of_respells_map {origin : Nat} {es : Entries}
    (h : (map origin es).respells free r w) :
    ∃ origin' fs, w = .map origin' fs ∧
      List.Forall₂ (RespelledEntry free r (free r (.map origin es))) es fs := by
  rcases respells_cases h with halike | ⟨_, _, _, -, hv, -⟩ | ⟨_, _, origin', fs, -, hv, rfl, hes⟩
  · obtain ⟨origin', fs, rfl, hes⟩ := halike.of_map
    exact ⟨origin', fs, rfl, hes.imp fun _ _ => respelledEntry_of_alike⟩
  · cases hv
  · obtain ⟨rfl, rfl⟩ := Value.map.inj hv
    exact ⟨origin', fs, rfl, hes⟩

/-- Mappings respell each other if their entries do, where there are schemas at all. -/
theorem respells_of_entries {origin origin' : Nat} {es fs : Entries} (hfixed : r ≠ .fixed)
    (hlist : ∀ q, r ≠ .list q)
    (h : List.Forall₂ (RespelledEntry free r (free r (.map origin es))) es fs) :
    (map origin es).respells free r (.map origin' fs) := by
  unfold respells
  rw [Bool.or_eq_true]
  right
  cases r with
  | fixed => exact absurd rfl hfixed
  | list q => exact absurd rfl (hlist q)
  | _ => exact respellsEntries_iff.2 h

/-- A list is respelled by a list. -/
theorem exists_of_respells_seq {vs : List Value} (h : (seq vs).respells free r w) (key : Scalar) :
    ∃ ws, w = .seq ws ∧ List.Forall₂ (fun v w => v.respells free (r.field key) w) vs ws := by
  rcases respells_cases h with halike | ⟨q, _, ws, rfl, hv, rfl, hvs⟩ | ⟨_, _, _, _, -, hv, -⟩
  · obtain ⟨ws, rfl, hvs⟩ := halike.of_seq
    exact ⟨ws, rfl, hvs.imp fun _ _ => respells_of_alike⟩
  · obtain rfl := Value.seq.inj hv
    exact ⟨ws, rfl, hvs⟩
  · cases hv

/-- Only a list is respelled by a list. -/
theorem exists_of_seq_respells {ws : List Value} (h : v.respells free r (seq ws)) :
    ∃ vs, v = .seq vs := by
  rcases respells_cases h with halike | ⟨_, vs, _, -, hv, -⟩ | ⟨_, _, _, _, -, -, hw, -⟩
  · obtain ⟨vs, rfl, -⟩ := halike.symm.of_seq
    exact ⟨vs, rfl⟩
  · exact ⟨vs, hv⟩
  · cases hw

/-- A value of another kind is respelled by values alike only. -/
theorem alike_of_respells (h : v.respells free r w) (hmap : v.isMap = false)
    (hseq : ∀ vs, v ≠ .seq vs) : Alike v w := by
  rcases respells_cases h with halike | ⟨_, vs, _, -, rfl, -⟩ | ⟨_, _, _, _, -, rfl, -⟩
  · exact halike
  · exact absurd rfl (hseq vs)
  · cases hmap

/-- Outside the roles of lists a value that is no mapping keeps as it is. -/
theorem alike_of_respells_of_ne (h : v.respells free r w) (hmap : v.isMap = false)
    (hr : ∀ q, r ≠ .list q) : Alike v w := by
  rcases respells_cases h with halike | ⟨q, _, _, rfl, -⟩ | ⟨_, _, _, _, -, rfl, -⟩
  · exact halike
  · exact absurd rfl (hr q)
  · cases hmap

theorem isMap_of_respells (h : v.respells free r w) : w.isMap = v.isMap := by
  rcases respells_cases h with halike | ⟨_, _, _, -, rfl, rfl, -⟩ | ⟨_, _, _, _, -, rfl, rfl, -⟩
  · exact halike.isMap
  · rfl
  · rfl

theorem isFilled_of_respells (h : v.respells free r w) : w.isFilled = v.isFilled := by
  rcases respells_cases h with halike | ⟨_, _, _, -, rfl, rfl, hvs⟩ | ⟨_, _, _, _, -, rfl, rfl, hes⟩
  · exact halike.isFilled
  · cases hvs <;> rfl
  · cases hes <;> rfl

theorem isNull_of_respells (h : v.respells free r w) : w.isNull = v.isNull := by
  rcases respells_cases h with halike | ⟨_, _, _, -, rfl, rfl, -⟩ | ⟨_, _, _, _, -, rfl, rfl, -⟩
  · exact halike.isNull
  · rfl
  · rfl

theorem text?_of_respells (h : v.respells free r w) : w.text? = v.text? := by
  rcases respells_cases h with halike | ⟨_, _, _, -, rfl, rfl, -⟩ | ⟨_, _, _, _, -, rfl, rfl, -⟩
  · exact halike.text?
  · rfl
  · rfl

theorem orNull_iff : orNull v w ↔ ∃ type, type ≠ "null" ∧ v = .str type ∧
    (w = .seq [.str type, .str "null"] ∨ w = .seq [.str "null", .str type]) := by
  constructor
  · intro h
    unfold orNull at h
    split at h
    · next type a b =>
        simp only [Bool.and_eq_true, Bool.or_eq_true, decide_eq_true_eq] at h
        refine ⟨type, h.1, rfl, h.2.imp ?_ ?_⟩
        all_goals
          rintro ⟨rfl, rfl⟩
          rfl
    · cases h
  · rintro ⟨type, htype, rfl, rfl | rfl⟩ <;> simp [orNull, htype]

theorem pointersOfEntries_cons (k : Scalar) (v : Value) (es : Entries) :
    pointersOfEntries ((k, v) :: es) =
      (if k = .str "$ref" then v.text?.toList else []) ++ v.pointers ++ pointersOfEntries es := by
  rw [pointersOfEntries.eq_def]
  dsimp only
  congr 2
  split
  · rfl
  · next hne =>
      split
      · next hk =>
          cases v with
          | scalar s =>
              cases s with
              | str p => exact (hne p hk rfl).elim
              | _ => rfl
          | _ => rfl
      · rfl

mutual

/-- Values that respell each other have the same pointers. -/
theorem pointers_of_respells {r : Role} :
    ∀ {v w : Value}, v.respells free r w → w.pointers = v.pointers
  | .scalar s, w, h => by rw [(alike_of_respells h rfl (by simp)).of_scalar]
  | .set ms, w, h => (alike_of_respells h rfl (by simp)).pointers
  | .pair a b, w, h => (alike_of_respells h rfl (by simp)).pointers
  | .seq vs, w, h => by
      obtain ⟨ws, rfl, hvs⟩ := exists_of_respells_seq h .null
      rw [pointers, pointers, pointersOfItems_of_respells hvs]
  | .map origin es, w, h => by
      obtain ⟨_, fs, rfl, hes⟩ := exists_of_respells_map h
      rw [pointers, pointers, pointersOfEntries_of_respells hes]

theorem pointersOfItems_of_respells {r : Role} : ∀ {vs ws : List Value},
    List.Forall₂ (fun v w => v.respells free r w) vs ws → pointersOfItems ws = pointersOfItems vs
  | [], ws, h => by cases h; rfl
  | v :: vs, ws, h => by
      cases h with
      | cons hv hvs =>
          rw [pointersOfItems, pointersOfItems, pointers_of_respells hv,
            pointersOfItems_of_respells hvs]

theorem pointersOfEntries_of_respells {r : Role} {own : Bool} : ∀ {es fs : Entries},
    List.Forall₂ (RespelledEntry free r own) es fs → pointersOfEntries fs = pointersOfEntries es
  | [], fs, h => by cases h; rfl
  | (k, v) :: es, fs, h => by
      cases h with
      | @cons _ f _ fs he hes =>
          obtain ⟨l, w⟩ := f
          obtain ⟨rfl, hvw⟩ := he
          rw [pointersOfEntries_cons, pointersOfEntries_cons, pointersOfEntries_of_respells hes]
          rcases hvw with hvw | ⟨-, hk, hvw⟩
          · rw [text?_of_respells hvw, pointers_of_respells hvw]
          · obtain rfl : l = .str "type" := hk
            obtain ⟨type, -, rfl, rfl | rfl⟩ := orNull_iff.1 hvw <;> rfl

end

section Access

theorem find?_respells {own : Bool} {es fs : Entries}
    (h : List.Forall₂ (RespelledEntry free r own) es fs) (name : String) :
    Option.Rel (fun v w => v.respells free (r.field (.str name)) w ∨
      own ∧ name = "type" ∧ orNull v w) (find? (.str name) es) (find? (.str name) fs) := by
  induction h with
  | nil => exact .none
  | @cons e f _ _ he _ ih =>
      obtain ⟨k, v⟩ := e
      obtain ⟨l, w⟩ := f
      obtain ⟨rfl, hvw⟩ := he
      rw [find?, find?]
      split
      · next hk =>
          obtain rfl := Scalar.eq_of_same_str hk
          exact .some (hvw.imp_right fun h => ⟨h.1, by simpa using h.2.1, h.2.2⟩)
      · exact ih

theorem get?_respells_or (h : v.respells free r w) (name : String) :
    Option.Rel (fun a b => a.respells free (r.field (.str name)) b ∨
      free r v ∧ name = "type" ∧ orNull a b) (v.get? name) (w.get? name) := by
  cases v with
  | map origin es =>
      obtain ⟨_, fs, rfl, hes⟩ := exists_of_respells_map h
      exact find?_respells hes name
  | _ =>
      have hw := isMap_of_respells h
      cases w with
      | map => cases hw
      | _ => exact .none

/-- Fields other than types respell each other. -/
theorem get?_respells (h : v.respells free r w) {name : String} (hname : name ≠ "type") :
    Option.Rel (fun a b => a.respells free (r.field (.str name)) b) (v.get? name) (w.get? name) :=
  rel_of_eq_some (get?_respells_or h name) fun _ _ _ _ hab => hab.resolve_right fun h => hname h.2.1

/-- What stands under `type` is alike, or a text in the one and a list with `null` in the other. -/
theorem get?_type_respells (h : v.respells free r w) (hr : r.field (.str "type") = .fixed) :
    Option.Rel (fun a b => Alike a b ∨ free r v ∧ orNull a b) (v.get? "type") (w.get? "type") :=
  rel_of_eq_some (get?_respells_or h "type") fun _ _ _ _ hab =>
    hab.imp (fun hab => respells_fixed_iff.1 (hr ▸ hab)) fun hab => ⟨hab.1, hab.2.2⟩

theorem get_type_respells (h : v.respells free r w) (hr : r.field (.str "type") = .fixed) :
    Alike (v.get "type") (w.get "type") ∨ free r v ∧ orNull (v.get "type") (w.get "type") := by
  have hrel := get?_type_respells h hr
  unfold get
  generalize v.get? "type" = x, w.get? "type" = y at hrel
  cases hrel with
  | none => exact .inl (Alike.refl _)
  | some hab => exact hab

end Access

end Value

/-- What respells another value in one role does so in the other. -/
def Role.Refines (r q : Role) : Prop :=
  ∀ ⦃v w : Value⦄, v.respells Role.readsLists r w → v.respells Role.readsLists q w

namespace Role

variable {r q : Role}

theorem Refines.refl (r : Role) : r.Refines r := fun _ _ h => h

theorem fixed_refines (q : Role) : fixed.Refines q := fun _ _ h =>
  Value.respells_of_alike (Value.respells_fixed_iff.1 h)

/-- It is enough that the fields refine each other, where types are free if they were. -/
theorem refines_of_field (hr : ∀ s, r ≠ .list s) (hq : ∀ s, q ≠ .list s) (hfixed : q ≠ .fixed)
    (hfree : ∀ v, r.readsLists v → q.readsLists v)
    (hfield : ∀ k, (r.field k).Refines (q.field k)) : r.Refines q := by
  intro v w h
  rcases Value.respells_cases h with halike | ⟨s, _, _, rfl, -⟩ |
    ⟨origin, es, origin', fs, -, rfl, rfl, hes⟩
  · exact Value.respells_of_alike halike
  · exact absurd rfl (hr s)
  · have hentries : List.Forall₂ (Value.RespelledEntry readsLists q (q.readsLists (.map origin es)))
        es fs := hes.imp fun e f he => ⟨he.1, he.2.imp (fun h => hfield _ h)
          fun h => ⟨hfree _ h.1, h.2⟩⟩
    exact Value.respells_of_entries hfixed hq hentries

theorem Refines.entries (h : r.Refines q) : (Role.entries r).Refines (.entries q) :=
  refines_of_field (by simp) (by simp) (by simp) (by simp [readsLists]) fun _ => h

theorem items_refines_node : items.Refines node :=
  refines_of_field (by simp) (by simp) (by simp) (by simp [readsLists]) fun k => by
    cases k <;> exact .refl _

theorem reply_refines_node : reply.Refines node :=
  refines_of_field (by simp) (by simp) (by simp) (by simp [readsLists]) fun k => by
    cases k <;> exact .refl _

theorem property_refines_node : property.Refines node := by
  refine refines_of_field (by simp) (by simp) (by simp) (by simp [readsLists]) fun k => ?_
  cases k with
  | str k =>
      simp only [field, named]
      split
      · next hk =>
          subst hk
          exact items_refines_node
      · exact .refl _
  | _ => exact .refl _

theorem node_refines_body : node.Refines body := by
  refine refines_of_field (by simp) (by simp) (by simp) (by simp [readsLists]) fun k => ?_
  cases k with
  | str k =>
      simp only [field, named]
      split
      · next hk =>
          subst hk
          exact property_refines_node.entries
      · exact .refl _
  | _ => exact .refl _

end Role

end OpenApiClient
