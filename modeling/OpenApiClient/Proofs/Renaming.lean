import Mathlib.Logic.Function.Basic
import OpenApiClient.Proofs.Parallel
import OpenApiClient.Proofs.Pointers

/-!
# Values apart from their origins

Origins tell mappings apart that are written alike.  `rename` gives every mapping of a value
another origin, and `bare` makes all origins the same.  Nothing that is asked of a value depends on
its origins, as one law for each way to look into a value says: what is found in a renamed value is
what is found in the value, renamed.  Values are *alike* if they differ in their origins at most.
-/

namespace OpenApiClient

open Walk

namespace Value

mutual

/-- The value with other origins. -/
def rename (ρ : Nat → Nat) : Value → Value
  | .scalar s => .scalar s
  | .set ms => .set ms
  | .pair a b => .pair (a.rename ρ) (b.rename ρ)
  | .seq items => .seq (renameItems ρ items)
  | .map origin es => .map (ρ origin) (renameEntries ρ es)

/-- `rename` of every item. -/
def renameItems (ρ : Nat → Nat) : List Value → List Value
  | [] => []
  | v :: r => v.rename ρ :: renameItems ρ r

/-- `rename` of every entry. -/
def renameEntries (ρ : Nat → Nat) : Entries → Entries
  | [] => []
  | (k, v) :: r => (k, v.rename ρ) :: renameEntries ρ r

end

/-- The value with one origin for all mappings. -/
def bare (v : Value) : Value := v.rename fun _ => 0

/-- The values differ in their origins at most. -/
def Alike (v w : Value) : Prop := v.bare = w.bare

instance (v w : Value) : Decidable (Alike v w) := inferInstanceAs (Decidable (_ = _))

variable {ρ σ : Nat → Nat} {v w : Value}

theorem renameItems_eq_map (ρ : Nat → Nat) (items : List Value) :
    renameItems ρ items = items.map (rename ρ) := by
  induction items with
  | nil => rfl
  | cons v r ih => rw [renameItems, ih, List.map_cons]

theorem renameEntries_eq_map (ρ : Nat → Nat) (es : Entries) :
    renameEntries ρ es = es.map fun e => (e.1, e.2.rename ρ) := by
  induction es with
  | nil => rfl
  | cons e r ih =>
      obtain ⟨k, v⟩ := e
      rw [renameEntries, ih, List.map_cons]

@[simp] theorem rename_scalar (ρ : Nat → Nat) (s : Scalar) : (scalar s).rename ρ = scalar s := by
  rw [rename]

@[simp] theorem rename_set (ρ : Nat → Nat) (ms : List Scalar) : (set ms).rename ρ = set ms := by
  rw [rename]

@[simp] theorem rename_pair (ρ : Nat → Nat) (a b : Value) :
    (pair a b).rename ρ = pair (a.rename ρ) (b.rename ρ) := by
  rw [rename]

@[simp] theorem rename_seq (ρ : Nat → Nat) (items : List Value) :
    (seq items).rename ρ = seq (items.map (rename ρ)) := by
  rw [rename, renameItems_eq_map]

@[simp] theorem rename_map (ρ : Nat → Nat) (origin : Nat) (es : Entries) :
    (map origin es).rename ρ = map (ρ origin) (es.map fun e => (e.1, e.2.rename ρ)) := by
  rw [rename, renameEntries_eq_map]

mutual

theorem rename_rename (ρ σ : Nat → Nat) : ∀ v : Value, (v.rename ρ).rename σ = v.rename (σ ∘ ρ)
  | .scalar s => by simp
  | .set ms => by simp
  | .pair a b => by simp [rename_rename ρ σ a, rename_rename ρ σ b]
  | .seq items => by rw [rename, rename, rename, renameItems_renameItems ρ σ items]
  | .map origin es => by
      rw [rename, rename, rename, renameEntries_renameEntries ρ σ es]
      rfl

theorem renameItems_renameItems (ρ σ : Nat → Nat) :
    ∀ items : List Value, renameItems σ (renameItems ρ items) = renameItems (σ ∘ ρ) items
  | [] => rfl
  | v :: r => by
      rw [renameItems, renameItems, renameItems, rename_rename ρ σ v, renameItems_renameItems ρ σ r]

theorem renameEntries_renameEntries (ρ σ : Nat → Nat) :
    ∀ es : Entries, renameEntries σ (renameEntries ρ es) = renameEntries (σ ∘ ρ) es
  | [] => rfl
  | (k, v) :: r => by
      rw [renameEntries, renameEntries, renameEntries, rename_rename ρ σ v,
        renameEntries_renameEntries ρ σ r]

end

/-- A renamed value is alike. -/
@[simp] theorem bare_rename (ρ : Nat → Nat) (v : Value) : (v.rename ρ).bare = v.bare :=
  rename_rename ρ _ v

theorem alike_rename (ρ : Nat → Nat) (v : Value) : Alike v (v.rename ρ) := (bare_rename ρ v).symm

mutual

theorem eq_of_rename_eq (hρ : Function.Injective ρ) :
    ∀ v w : Value, v.rename ρ = w.rename ρ → v = w
  | .scalar s, w, h => by cases w <;> simp_all
  | .set ms, w, h => by cases w <;> simp_all
  | .pair a b, w, h => by
      cases w with
      | pair c d =>
          rw [rename, rename, Value.pair.injEq] at h
          rw [eq_of_rename_eq hρ a c h.1, eq_of_rename_eq hρ b d h.2]
      | _ => simp at h
  | .seq items, w, h => by
      cases w with
      | seq others =>
          rw [rename, rename, Value.seq.injEq] at h
          rw [eq_of_renameItems_eq hρ items others h]
      | _ => simp at h
  | .map origin es, w, h => by
      cases w with
      | map origin' es' =>
          rw [rename, rename, Value.map.injEq] at h
          rw [hρ h.1, eq_of_renameEntries_eq hρ es es' h.2]
      | _ => simp at h

theorem eq_of_renameItems_eq (hρ : Function.Injective ρ) :
    ∀ vs ws : List Value, renameItems ρ vs = renameItems ρ ws → vs = ws
  | [], ws, h => by cases ws <;> simp_all [renameItems]
  | v :: vs, ws, h => by
      cases ws with
      | nil => simp [renameItems] at h
      | cons w ws =>
          rw [renameItems, renameItems, List.cons.injEq] at h
          rw [eq_of_rename_eq hρ v w h.1, eq_of_renameItems_eq hρ vs ws h.2]

theorem eq_of_renameEntries_eq (hρ : Function.Injective ρ) :
    ∀ es fs : Entries, renameEntries ρ es = renameEntries ρ fs → es = fs
  | [], fs, h => by cases fs <;> simp_all [renameEntries]
  | (k, v) :: es, fs, h => by
      cases fs with
      | nil => simp [renameEntries] at h
      | cons f fs =>
          obtain ⟨l, w⟩ := f
          rw [renameEntries, renameEntries, List.cons.injEq, Prod.mk.injEq] at h
          rw [h.1.1, eq_of_rename_eq hρ v w h.1.2, eq_of_renameEntries_eq hρ es fs h.2]

end

/-- Different origins stay different, and so do values. -/
theorem rename_injective (hρ : Function.Injective ρ) : Function.Injective (rename ρ) :=
  eq_of_rename_eq hρ

@[simp] theorem rename_id (v : Value) : v.rename id = v :=
  rename_injective Function.injective_id (rename_rename id id v)

section Access

theorem find?_rename (ρ : Nat → Nat) (key : Scalar) (es : Entries) :
    find? key (es.map fun e => (e.1, e.2.rename ρ)) = (find? key es).map (rename ρ) := by
  induction es with
  | nil => rfl
  | cons e r ih =>
      rw [List.map_cons, find?, find?, ih]
      split <;> rfl

@[simp] theorem get?_rename (ρ : Nat → Nat) (v : Value) (name : String) :
    (v.rename ρ).get? name = (v.get? name).map (rename ρ) := by
  cases v with
  | map origin es => rw [rename_map, get?_map, get?_map, find?_rename]
  | _ => simp [get?]

@[simp] theorem get_rename (ρ : Nat → Nat) (v : Value) (name : String) :
    (v.rename ρ).get name = (v.get name).rename ρ := by
  unfold get
  cases h : v.get? name <;> simp [h]

@[simp] theorem has_rename (ρ : Nat → Nat) (v : Value) (name : String) :
    (v.rename ρ).has name = v.has name := by
  simp [has]

@[simp] theorem isMap_rename (ρ : Nat → Nat) (v : Value) : (v.rename ρ).isMap = v.isMap := by
  cases v <;> simp [isMap]

@[simp] theorem isFilled_rename (ρ : Nat → Nat) (v : Value) :
    (v.rename ρ).isFilled = v.isFilled := by
  cases v <;> simp [isFilled]

@[simp] theorem isNull_rename (ρ : Nat → Nat) (v : Value) : (v.rename ρ).isNull = v.isNull := by
  cases v <;> simp [isNull]

@[simp] theorem text?_rename (ρ : Nat → Nat) (v : Value) : (v.rename ρ).text? = v.text? := by
  cases v <;> simp [text?]

@[simp] theorem isKey_rename (ρ : Nat → Nat) (v : Value) : (v.rename ρ).isKey = v.isKey := by
  induction v using isKey.induct with
  | case1 s => simp
  | case2 a b iha ihb => simp [isKey, iha, ihb]
  | case3 v _ _ => cases v <;> simp_all [isKey]

@[simp] theorem filled?_rename (ρ : Nat → Nat) (v : Value) :
    (v.rename ρ).filled? = v.filled?.map (rename ρ) := by
  unfold filled?
  rw [isFilled_rename]
  split <;> rfl

@[simp] theorem reference?_rename (ρ : Nat → Nat) (v : Value) :
    (v.rename ρ).reference? = v.reference?.map (rename ρ) :=
  get?_rename ρ v "$ref"

mutual

theorem shown_rename (ρ : Nat → Nat) : ∀ v : Value, (v.rename ρ).shown = v.shown
  | .scalar s => by rw [rename]
  | .set ms => by rw [rename]
  | .pair a b => by rw [rename, shown, shown, shown_rename ρ a, shown_rename ρ b]
  | .seq items => by rw [rename, shown, shown, shownItems_rename ρ items]
  | .map origin es => by rw [rename, shown, shown, shownEntries_rename ρ es]

theorem shownItems_rename (ρ : Nat → Nat) :
    ∀ items : List Value, shownItems (renameItems ρ items) = shownItems items
  | [] => rfl
  | v :: r => by
      rw [renameItems, shownItems, shownItems, shown_rename ρ v, shownItems_rename ρ r]

theorem shownEntries_rename (ρ : Nat → Nat) :
    ∀ es : Entries, shownEntries (renameEntries ρ es) = shownEntries es
  | [] => rfl
  | (k, v) :: r => by
      rw [renameEntries, shownEntries, shownEntries, shown_rename ρ v, shownEntries_rename ρ r]

end

@[simp] theorem text_rename (ρ : Nat → Nat) (v : Value) : (v.rename ρ).text = v.text := by
  have h := shown_rename ρ v
  cases v <;> simp_all [text]

mutual

theorem same_rename (ρ σ : Nat → Nat) :
    ∀ a b : Value, (a.rename ρ).same (b.rename σ) = a.same b
  | .scalar a, b => by cases b <;> simp [same]
  | .set a, b => by cases b <;> simp [same]
  | .pair a₁ a₂, b => by
      cases b with
      | pair b₁ b₂ =>
          rw [rename, rename, same, same, same_rename ρ σ a₁ b₁, same_rename ρ σ a₂ b₂]
      | _ => simp [same]
  | .seq items, b => by
      cases b with
      | seq others => rw [rename, rename, same, same, sameItems_rename ρ σ items others]
      | _ => simp [same]
  | .map origin es, b => by
      cases b with
      | map origin' fs =>
          rw [rename, rename, same, same, sameEntries_rename ρ σ es fs, renameEntries_eq_map,
            renameEntries_eq_map, List.length_map, List.length_map]
      | _ => simp [same]

theorem sameItems_rename (ρ σ : Nat → Nat) :
    ∀ vs ws : List Value, sameItems (renameItems ρ vs) (renameItems σ ws) = sameItems vs ws
  | [], ws => by cases ws <;> simp [renameItems, sameItems]
  | v :: vs, ws => by
      cases ws with
      | nil => simp [renameItems, sameItems]
      | cons w ws =>
          rw [renameItems, renameItems, sameItems, sameItems, same_rename ρ σ v w,
            sameItems_rename ρ σ vs ws]

theorem sameEntries_rename (ρ σ : Nat → Nat) :
    ∀ es fs : Entries, sameEntries (renameEntries ρ es) (renameEntries σ fs) = sameEntries es fs
  | [], fs => by simp [renameEntries, sameEntries]
  | (k, v) :: es, fs => by
      rw [renameEntries, sameEntries, sameEntries, sameEntries_rename ρ σ es fs,
        renameEntries_eq_map, find?_rename]
      cases find? k fs with
      | none => rfl
      | some w => simp only [Option.map_some, same_rename ρ σ v w]

end

theorem same_rename_left (ρ : Nat → Nat) (a b : Value) : (a.rename ρ).same b = a.same b := by
  rw [← same_rename ρ id a b, rename_id]

@[simp] theorem fieldOr_rename (ρ : Nat → Nat) (v default : Value) (name : String) :
    (v.rename ρ).fieldOr name (default.rename ρ) = (v.fieldOr name default).map (rename ρ) := by
  unfold fieldOr
  rw [isMap_rename, get?_rename]
  split
  · cases v.get? name <;> rfl
  · rfl

@[simp] theorem field_rename (ρ : Nat → Nat) (v : Value) (name : String) :
    (v.rename ρ).field name = (v.field name).map (rename ρ) := by
  unfold field
  rw [isMap_rename, get_rename]
  split <;> rfl

theorem entriesOrNone_rename (ρ : Nat → Nat) (v : Value) :
    (v.rename ρ).entriesOrNone =
      v.entriesOrNone.map (List.map fun e => (e.1, e.2.rename ρ)) := by
  unfold entriesOrNone
  rw [isFilled_rename]
  split
  · cases v <;> simp [Except.map]
  · rfl

theorem members_rename (ρ : Nat → Nat) (v : Value) :
    (v.rename ρ).members = v.members.map (List.map (rename ρ)) := by
  cases v with
  | scalar s => cases s <;> simp [members, Except.map]
  | set ms => simp [members, Except.map]
  | pair a b => simp [members, Except.map]
  | seq items => simp [members, Except.map]
  | map origin es => simp [members, Except.map]

theorem membersOrNone_rename (ρ : Nat → Nat) (v : Value) :
    (v.rename ρ).membersOrNone = v.membersOrNone.map (List.map (rename ρ)) := by
  unfold membersOrNone
  rw [isFilled_rename, members_rename]
  split <;> rfl

@[simp] theorem contains_rename (ρ σ : Nat → Nat) (v x : Value) :
    (v.rename ρ).contains (x.rename σ) = v.contains x := by
  cases v with
  | seq items =>
      rw [rename_seq, contains, contains, List.any_map]
      simp only [Function.comp_def, same_rename]
  | pair a b => simp [contains, same_rename]
  | map origin es =>
      cases x with
      | scalar k => simp [contains, find?_rename]
      | _ => simp [contains, isKey]
  | set ms =>
      cases x with
      | scalar k => simp [contains]
      | _ => simp [contains, isKey]
  | scalar s =>
      cases s <;> cases x with
      | scalar k => simp
      | _ => simp [contains]

@[simp] theorem index_rename (ρ σ : Nat → Nat) (v i : Value) :
    (v.rename ρ).index (i.rename σ) = (v.index i).map (rename ρ) := by
  have hposition : index.position? (i.rename σ) = index.position? i := by
    cases i <;> simp [index.position?]
  have hat (items : List Value) (n : Int) : index.atPosition (items.map (rename ρ)) n =
      (index.atPosition items n).map (rename ρ) := by
    unfold index.atPosition
    rw [List.length_map]
    dsimp only
    generalize (if n < 0 then n + items.length else n) = n
    split
    · rfl
    · rw [List.getElem?_map]
      cases items[n.toNat]? <;> rfl
  cases v with
  | map origin es =>
      cases i with
      | scalar k =>
          simp only [rename_map, rename_scalar, index, find?_rename]
          cases find? k es <;> rfl
      | _ => simp [index, Except.map]
  | seq items =>
      simp only [rename_seq, index, hposition]
      cases index.position? i with
      | none => rfl
      | some n => exact hat items n
  | pair a b =>
      simp only [rename_pair, index, hposition]
      cases index.position? i with
      | none => rfl
      | some n => exact hat [a, b] n
  | set ms => simp [index, Except.map]
  | scalar s =>
      cases s with
      | str s =>
          simp only [rename_scalar, index, hposition]
          cases index.position? i with
          | none => rfl
          | some n =>
              simpa [Function.comp_def] using
                hat (s.toList.map fun c => .str (String.singleton c)) n
      | bytes bs =>
          simp only [rename_scalar, index, hposition]
          cases index.position? i with
          | none => rfl
          | some n => simpa [Function.comp_def] using hat (bs.map fun b => .int b.toNat) n
      | _ => simp [index, Except.map]

end Access

mutual

theorem pointers_rename (ρ : Nat → Nat) : ∀ v : Value, (v.rename ρ).pointers = v.pointers
  | .scalar s => by rw [rename]
  | .set ms => by rw [rename]
  | .pair a b => by
      rw [rename, pointers, pointers, pointers_rename ρ a, pointers_rename ρ b]
  | .seq items => by rw [rename, pointers, pointers, pointersOfItems_rename ρ items]
  | .map origin es => by rw [rename, pointers, pointers, pointersOfEntries_rename ρ es]

theorem pointersOfItems_rename (ρ : Nat → Nat) :
    ∀ items : List Value, pointersOfItems (renameItems ρ items) = pointersOfItems items
  | [] => rfl
  | v :: r => by
      rw [renameItems, pointersOfItems, pointersOfItems, pointers_rename ρ v,
        pointersOfItems_rename ρ r]

theorem pointersOfEntries_rename (ρ : Nat → Nat) :
    ∀ es : Entries, pointersOfEntries (renameEntries ρ es) = pointersOfEntries es
  | [] => rfl
  | (k, v) :: r => by
      rw [renameEntries]
      unfold pointersOfEntries
      rw [pointers_rename ρ v, pointersOfEntries_rename ρ r]
      cases v with
      | scalar s => rw [rename]
      | _ => simp

end

namespace Alike

@[refl] theorem refl (v : Value) : Alike v v := rfl

theorem symm (h : Alike v w) : Alike w v := Eq.symm h

/-- What does not depend on origins is the same of values that are alike. -/
theorem eq {α : Type} {f : Value → α} (hf : ∀ ρ v, f (v.rename ρ) = f v) (h : Alike v w) :
    f w = f v := by
  rw [← hf (fun _ => 0) w, ← hf (fun _ => 0) v]
  exact congrArg f (Eq.symm h)

theorem isMap (h : Alike v w) : w.isMap = v.isMap := h.eq isMap_rename

theorem isFilled (h : Alike v w) : w.isFilled = v.isFilled := h.eq isFilled_rename

theorem isNull (h : Alike v w) : w.isNull = v.isNull := h.eq isNull_rename

theorem isKey (h : Alike v w) : w.isKey = v.isKey := h.eq isKey_rename

theorem text (h : Alike v w) : w.text = v.text := h.eq text_rename

theorem text? (h : Alike v w) : w.text? = v.text? := h.eq text?_rename

theorem pointers (h : Alike v w) : w.pointers = v.pointers := h.eq pointers_rename

theorem contains {x y : Value} (h : Alike v w) (hx : Alike x y) : w.contains y = v.contains x := by
  unfold Alike bare at h hx
  rw [← contains_rename (fun _ => 0) (fun _ => 0), ← contains_rename (fun _ => 0) (fun _ => 0) v, h,
    hx]

theorem same_of_alike {x y : Value} (h : Alike v w) (hx : Alike x y) : w.same y = v.same x := by
  unfold Alike bare at h hx
  rw [← same_rename (fun _ => 0) (fun _ => 0), ← same_rename (fun _ => 0) (fun _ => 0) v, h, hx]

theorem same (h : Alike v w) (x : Value) : w.same x = v.same x := h.same_of_alike (refl x)

theorem index {i j : Value} (h : Alike v w) (hi : Alike i j) :
    Matches Alike (v.index i) (w.index j) := by
  unfold Alike bare at h hi
  have hmap := congrArg₂ Value.index h hi
  rw [index_rename, index_rename] at hmap
  exact matches_of_map_eq hmap

/-- What is found in values that are alike is alike, if it is found whatever the origins are. -/
theorem found {f : Value → Value} (hf : ∀ ρ v, f (v.rename ρ) = (f v).rename ρ) (h : Alike v w) :
    Alike (f v) (f w) := by
  unfold Alike bare at h ⊢
  rw [← hf, ← hf, h]

theorem found? {f : Value → Option Value} (hf : ∀ ρ v, f (v.rename ρ) = (f v).map (rename ρ))
    (h : Alike v w) : Option.Rel Alike (f v) (f w) := by
  have hmap : (f v).map bare = (f w).map bare := by
    unfold Alike bare at h
    unfold bare
    rw [← hf, ← hf, h]
  cases hv : f v <;> cases hw : f w <;> rw [hv, hw] at hmap
  · exact .none
  · cases hmap
  · cases hmap
  · exact .some (Option.some.inj hmap)

theorem get (h : Alike v w) (name : String) : Alike (v.get name) (w.get name) :=
  h.found (f := fun v => v.get name) fun ρ v => get_rename ρ v name

theorem get? (h : Alike v w) (name : String) : Option.Rel Alike (v.get? name) (w.get? name) :=
  h.found? (f := fun v => v.get? name) fun ρ v => get?_rename ρ v name

theorem orElse {x y : Value} (h : Alike v w) (h' : Alike x y) :
    Alike (v.orElse x) (w.orElse y) := by
  unfold Value.orElse
  rw [h.isFilled]
  split
  · exact h
  · exact h'

theorem of_scalar {s : Scalar} (h : Alike (.scalar s) w) : w = .scalar s := by
  unfold Alike bare at h
  cases w <;> simp_all

theorem of_seq {items : List Value} (h : Alike (.seq items) w) :
    ∃ others, w = .seq others ∧ List.Forall₂ Alike items others := by
  unfold Alike bare at h
  cases w with
  | seq others =>
      rw [rename_seq, rename_seq] at h
      exact ⟨others, rfl, forall₂_of_map_eq (Value.seq.inj h)⟩
  | _ => simp at h

theorem of_map {origin : Nat} {es : Entries} (h : Alike (.map origin es) w) :
    ∃ origin' es', w = .map origin' es' ∧
      List.Forall₂ (fun e e' => e'.1 = e.1 ∧ Alike e.2 e'.2) es es' := by
  unfold Alike bare at h
  cases w with
  | map origin' es' =>
      rw [rename_map, rename_map] at h
      refine ⟨origin', es', rfl, (forall₂_of_map_eq (Value.map.inj h).2).imp fun e e' he => ?_⟩
      exact ⟨(Prod.mk.inj he).1.symm, (Prod.mk.inj he).2⟩
  | _ => simp at h

theorem entriesOrNone (h : Alike v w) :
    Matches (List.Forall₂ fun e e' => e'.1 = e.1 ∧ Alike e.2 e'.2)
      v.entriesOrNone w.entriesOrNone := by
  unfold Alike bare at h
  have hmap := congrArg Value.entriesOrNone h
  rw [entriesOrNone_rename, entriesOrNone_rename] at hmap
  refine (matches_of_map_eq hmap).mono fun es es' hes => ?_
  exact (forall₂_of_map_eq hes).imp fun e e' he => ⟨(Prod.mk.inj he).1.symm, (Prod.mk.inj he).2⟩

theorem members (h : Alike v w) : Matches (List.Forall₂ Alike) v.members w.members := by
  unfold Alike bare at h
  have hmap := congrArg Value.members h
  rw [members_rename, members_rename] at hmap
  exact (matches_of_map_eq hmap).mono fun _ _ => forall₂_of_map_eq

theorem membersOrNone (h : Alike v w) :
    Matches (List.Forall₂ Alike) v.membersOrNone w.membersOrNone := by
  unfold Alike bare at h
  have hmap := congrArg Value.membersOrNone h
  rw [membersOrNone_rename, membersOrNone_rename] at hmap
  exact (matches_of_map_eq hmap).mono fun _ _ => forall₂_of_map_eq

end Alike

end Value

end OpenApiClient
