import OpenApiClient.Calendar
import OpenApiClient.Decimal.Shortest

/-!
# Document values

What a document is made of.  Scalars are kept apart from collections, since only scalars are
keys of mappings.  A mapping keeps the order of its entries and carries its origin, a number
that the reader of a document gives to every mapping it meets: a mapping reached along two
ways keeps its one origin, while two mappings written alike have two.
-/

namespace OpenApiClient

open Calendar Decimal

/-- Values without parts. -/
inductive Scalar where
  | null
  | bool (b : Bool)
  | int (n : Int)
  | float (x : Binary64)
  | str (s : String)
  | date (d : Date)
  | moment (m : Moment)
  | bytes (bs : List UInt8)
  deriving DecidableEq, Repr, Inhabited

/-- Values of a document. -/
inductive Value where
  | scalar (s : Scalar)
  | set (members : List Scalar)
  | pair (first second : Value)
  | seq (items : List Value)
  | map (origin : Nat) (entries : List (Scalar × Value))
  deriving Repr, Inhabited

namespace Value

@[match_pattern] abbrev null : Value := .scalar .null
@[match_pattern] abbrev bool (b : Bool) : Value := .scalar (.bool b)
@[match_pattern] abbrev int (n : Int) : Value := .scalar (.int n)
@[match_pattern] abbrev str (s : String) : Value := .scalar (.str s)

/-- Entries of a mapping, in order. -/
abbrev Entries := List (Scalar × Value)

mutual

/-- Whether two values are written alike and come from the same places. -/
def beq : Value → Value → Bool
  | .scalar a, .scalar b => a == b
  | .set a, .set b => a == b
  | .pair a b, .pair c d => a.beq c && b.beq d
  | .seq a, .seq b => beqItems a b
  | .map i a, .map j b => i == j && beqEntries a b
  | _, _ => false

/-- `beq` item by item. -/
def beqItems : List Value → List Value → Bool
  | [], [] => true
  | a :: r, b :: s => a.beq b && beqItems r s
  | _, _ => false

/-- `beq` entry by entry. -/
def beqEntries : Entries → Entries → Bool
  | [], [] => true
  | (k, a) :: r, (l, b) :: s => k == l && a.beq b && beqEntries r s
  | _, _ => false

end

instance : BEq Value := ⟨beq⟩

mutual

theorem beq_self : ∀ v : Value, v.beq v = true
  | .scalar a => by simp [beq]
  | .set a => by simp [beq]
  | .pair a b => by simp [beq, beq_self a, beq_self b]
  | .seq items => by simp [beq, beqItems_self items]
  | .map i es => by simp [beq, beqEntries_self es]

theorem beqItems_self : ∀ vs : List Value, beqItems vs vs = true
  | [] => by simp [beqItems]
  | v :: r => by simp [beqItems, beq_self v, beqItems_self r]

theorem beqEntries_self : ∀ es : Entries, beqEntries es es = true
  | [] => by simp [beqEntries]
  | (k, v) :: r => by simp [beqEntries, beq_self v, beqEntries_self r]

end

mutual

theorem eq_of_beq : ∀ a b : Value, a.beq b = true → a = b
  | .scalar a, b, h => by cases b <;> simp_all [beq]
  | .set a, b, h => by cases b <;> simp_all [beq]
  | .pair a₁ a₂, b, h => by
    cases b with
    | pair b₁ b₂ =>
      simp only [beq, Bool.and_eq_true] at h
      rw [eq_of_beq a₁ b₁ h.1, eq_of_beq a₂ b₂ h.2]
    | _ => simp [beq] at h
  | .seq xs, b, h => by
    cases b with
    | seq ys => rw [eq_of_beqItems xs ys (by simpa [beq] using h)]
    | _ => simp [beq] at h
  | .map i xs, b, h => by
    cases b with
    | map j ys =>
      simp only [beq, Bool.and_eq_true, beq_iff_eq] at h
      rw [h.1, eq_of_beqEntries xs ys h.2]
    | _ => simp [beq] at h

theorem eq_of_beqItems : ∀ xs ys : List Value, beqItems xs ys = true → xs = ys
  | [], ys, h => by cases ys <;> simp_all [beqItems]
  | x :: xs, ys, h => by
    cases ys with
    | nil => simp [beqItems] at h
    | cons y ys =>
      simp only [beqItems, Bool.and_eq_true] at h
      rw [eq_of_beq x y h.1, eq_of_beqItems xs ys h.2]

theorem eq_of_beqEntries : ∀ xs ys : Entries, beqEntries xs ys = true → xs = ys
  | [], ys, h => by cases ys <;> simp_all [beqEntries]
  | (k, x) :: xs, ys, h => by
    cases ys with
    | nil => simp [beqEntries] at h
    | cons y ys =>
      obtain ⟨l, y⟩ := y
      simp only [beqEntries, Bool.and_eq_true, beq_iff_eq] at h
      rw [h.1.1, eq_of_beq x y h.1.2, eq_of_beqEntries xs ys h.2]

end

instance : LawfulBEq Value where
  rfl := beq_self _
  eq_of_beq := eq_of_beq _ _

instance : DecidableEq Value := fun a b =>
  if h : a == b then isTrue (eq_of_beq a b h)
  else isFalse fun e => h (by subst e; exact beq_self a)

mutual

/-- The texts under the key `$ref` anywhere in a value, in order. -/
def pointers : Value → List String
  | .scalar _ => []
  | .set _ => []
  | .pair a b => a.pointers ++ b.pointers
  | .seq items => pointersOfItems items
  | .map _ es => pointersOfEntries es

/-- `pointers` of every item. -/
def pointersOfItems : List Value → List String
  | [] => []
  | v :: r => v.pointers ++ pointersOfItems r

/-- `pointers` of every entry. -/
def pointersOfEntries : Entries → List String
  | [] => []
  | (k, v) :: r =>
    (match k, v with
      | .str "$ref", .scalar (.str p) => [p]
      | _, _ => []) ++ v.pointers ++ pointersOfEntries r

end

end Value

end OpenApiClient
