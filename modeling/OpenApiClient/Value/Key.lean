import OpenApiClient.Value.Basic

/-!
# Keys of mappings

Two scalars are the same key if they are equal in value: truth values count as the numbers 0
and 1, and a whole floating-point number is the same key as the integer.  An undefined
number is no key's equal.  Putting an entry under a key that is there keeps the place and
the spelling of the key and replaces the value.
-/

namespace OpenApiClient

open Decimal

namespace Scalar

/-- The exact value of a finite number, as numerator and power of two of the denominator. -/
def number? : Scalar → Option (Int × Nat)
  | .bool b => some (if b then 1 else 0, 0)
  | .int n => some (n, 0)
  | .float x => x.fraction?
  | _ => none

/-- Whether two scalars are equal in value. -/
def same (a b : Scalar) : Bool :=
  match a.number?, b.number? with
  | some x, some y => x == y
  | none, none =>
    match a, b with
    | .float x, .float y => !x.isNaN && x == y
    | .moment x, .moment y => x.same y
    | a, b => a == b
  | _, _ => false

/-- A text is the same key as another exactly if it is the same text. -/
@[simp] theorem same_str (s t : String) : same (.str s) (.str t) = (s == t) := by
  simp [same, number?, BEq.beq]

end Scalar

namespace Value

/-- The value under a key. -/
def find? (key : Scalar) : Entries → Option Value
  | [] => none
  | (k, v) :: rest => if k.same key then some v else find? key rest

/-- Puts a value under a key, in place of what is there or at the end. -/
def insert (key : Scalar) (value : Value) : Entries → Entries
  | [] => [(key, value)]
  | (k, v) :: rest =>
    if k.same key then (k, value) :: rest else (k, v) :: insert key value rest

/-- Entries in the order in which their keys were first met, each with its last value. -/
def ofPairs (pairs : List (Scalar × Value)) : Entries :=
  pairs.foldl (fun es (k, v) => insert k v es) []

@[simp] theorem find?_nil (key : Scalar) : find? key [] = none := rfl

theorem find?_insert_self (s : String) (v : Value) (es : Entries) :
    find? (.str s) (insert (.str s) v es) = some v := by
  induction es with
  | nil => simp [insert, find?]
  | cons e rest ih =>
    obtain ⟨k, w⟩ := e
    by_cases h : k.same (.str s)
    · simp [insert, find?, h]
    · simp [insert, find?, h, ih]

mutual

/-- Whether two values are equal in value, whatever their places of origin.  Mappings are
equal if each has the other's entries, in any order. -/
def same : Value → Value → Bool
  | .scalar a, .scalar b => a.same b
  | .set a, .set b => a.length == b.length && a.all (fun x => b.any x.same)
  | .pair a b, .pair c d => a.same c && b.same d
  | .seq a, .seq b => sameItems a b
  | .map _ a, .map _ b => a.length == b.length && sameEntries a b
  | _, _ => false

/-- `same` item by item. -/
def sameItems : List Value → List Value → Bool
  | [], [] => true
  | a :: r, b :: s => a.same b && sameItems r s
  | _, _ => false

/-- Whether every entry has its equal among the others. -/
def sameEntries : Entries → Entries → Bool
  | [], _ => true
  | (k, a) :: r, others =>
    (match find? k others with
      | some b => a.same b
      | none => false) && sameEntries r others

end

end Value

end OpenApiClient
