import OpenApiClient.Fault
import OpenApiClient.Value.Key

/-!
# Looking into values

Documents come from outside, so every look into a value may find one of the wrong kind.
What a kind does not allow is refused by name.  A value counts as *filled* unless it is
null, false, zero or empty.
-/

namespace OpenApiClient.Value

open Decimal

/-- Whether a value is neither null nor false nor zero nor empty. -/
def isFilled : Value → Bool
  | .scalar .null => false
  | .scalar (.bool b) => b
  | .scalar (.int n) => n != 0
  | .scalar (.float x) => !x.isZero
  | .scalar (.str s) => s != ""
  | .scalar (.bytes bs) => !bs.isEmpty
  | .scalar _ => true
  | .set ms => !ms.isEmpty
  | .pair _ _ => true
  | .seq items => !items.isEmpty
  | .map _ es => !es.isEmpty

/-- The value itself if it is filled, otherwise the other one. -/
def orElse (v other : Value) : Value := if v.isFilled then v else other

/-- The value if it is filled. -/
def filled? (v : Value) : Option Value := if v.isFilled then some v else none

/-- The entries of a mapping. -/
def entries? : Value → Option Entries
  | .map _ es => some es
  | _ => none

/-- Whether a value is a mapping. -/
def isMap : Value → Bool
  | .map _ _ => true
  | _ => false

/-- The field of a mapping under a name. -/
def get? (v : Value) (name : String) : Option Value :=
  match v with
  | .map _ es => find? (.str name) es
  | _ => none

/-- The field under a name, null if there is none. -/
def get (v : Value) (name : String) : Value := (v.get? name).getD .null

/-- Whether a mapping has a field of that name. -/
def has (v : Value) (name : String) : Bool := (v.get? name).isSome

/-- The field under a name; a value without fields refuses. -/
def field (v : Value) (name : String) : Except Fault Value :=
  if v.isMap then .ok (v.get name) else .error (.refused .notAMapping)

/-- The field under a name, or the given value if there is none; a value without fields
refuses. -/
def fieldOr (v : Value) (name : String) (default : Value) : Except Fault Value :=
  if v.isMap then .ok ((v.get? name).getD default) else .error (.refused .notAMapping)

/-- The entries of a mapping, none of a value that is not filled; other values refuse. -/
def entriesOrNone (v : Value) : Except Fault Entries :=
  if v.isFilled then
    match v with
    | .map _ es => .ok es
    | _ => .error (.refused .notAMapping)
  else .ok []

/-- What a walk through a value meets: items, keys, members, single characters, or bytes.
Values without members refuse. -/
def members : Value → Except Fault (List Value)
  | .seq items => .ok items
  | .map _ es => .ok (es.map fun e => .scalar e.1)
  | .set ms => .ok (ms.map .scalar)
  | .pair a b => .ok [a, b]
  | .scalar (.str s) => .ok (s.toList.map fun c => .str (String.singleton c))
  | .scalar (.bytes bs) => .ok (bs.map fun b => .int b.toNat)
  | .scalar _ => .error (.refused .notIterable)

/-- `members` of a filled value, none of one that is not filled. -/
def membersOrNone (v : Value) : Except Fault (List Value) :=
  if v.isFilled then v.members else .ok []

mutual

/-- Whether a value may be a key or a member of a set. -/
def isKey : Value → Bool
  | .scalar _ => true
  | .pair a b => a.isKey && b.isKey
  | _ => false

end

/-- Whether a value is among the members of another one.  In a text the parts are looked
for, in a mapping the keys. -/
def contains (v x : Value) : Except Fault Bool :=
  match v with
  | .seq items => .ok (items.any fun i => i.same x)
  | .pair a b => .ok (a.same x || b.same x)
  | .map _ es =>
    match x with
    | .scalar k => .ok (find? k es).isSome
    | x => if x.isKey then .ok false else .error (.refused .notAKey)
  | .set ms =>
    match x with
    | .scalar k => .ok (ms.any fun m => m.same k)
    | x => if x.isKey then .ok false else .error (.refused .notAKey)
  | .scalar (.str s) =>
    match x with
    | .scalar (.str part) => .ok (Text.occursIn part.toList s.toList)
    | _ => .error (.refused .notAContainer)
  | .scalar (.bytes bs) =>
    match x with
    | .scalar (.bytes part) => .ok (bytesIn part bs)
    | .scalar (.int n) => byteIn n bs
    | .scalar (.bool b) => byteIn (if b then 1 else 0) bs
    | _ => .error (.refused .notAContainer)
  | .scalar _ => .error (.refused .notAContainer)
where
  /-- Whether a number from 0 to 255 is among the bytes; other numbers refuse. -/
  byteIn (n : Int) (bs : List UInt8) : Except Fault Bool :=
    if 0 ≤ n && n < 256 then .ok (bs.any fun b => b.toNat == n.toNat)
    else .error (.refused .notANumber)
  /-- Whether a row of bytes occurs inside another. -/
  bytesIn (part : List UInt8) : List UInt8 → Bool
    | [] => part.isEmpty
    | b :: rest => part.isPrefixOf (b :: rest) || bytesIn part rest

/-- The part of a value under an index or a key. -/
def index (v i : Value) : Except Fault Value :=
  match v with
  | .map _ es =>
    match i with
    | .scalar k => (find? k es).elim (.error (.refused .outOfRange)) .ok
    | _ => .error (.refused .notAKey)
  | .seq items =>
    match position? i with
    | some n => atPosition items n
    | none => .error (.refused .notIndexable)
  | .pair a b =>
    match position? i with
    | some n => atPosition [a, b] n
    | none => .error (.refused .notIndexable)
  | .scalar (.str s) =>
    match position? i with
    | some n => atPosition (s.toList.map fun c => .str (String.singleton c)) n
    | none => .error (.refused .notIndexable)
  | .scalar (.bytes bs) =>
    match position? i with
    | some n => atPosition (bs.map fun b => .int b.toNat) n
    | none => .error (.refused .notIndexable)
  | _ => .error (.refused .notIndexable)
where
  /-- Truth values count as positions 0 and 1. -/
  position? : Value → Option Int
    | .scalar (.int n) => some n
    | .scalar (.bool b) => some (if b then 1 else 0)
    | _ => none
  /-- Negative positions count from the end. -/
  atPosition (items : List Value) (n : Int) : Except Fault Value :=
    let n := if n < 0 then n + items.length else n
    if n < 0 then .error (.refused .outOfRange)
    else (items[n.toNat]?).elim (.error (.refused .outOfRange)) .ok

/-- The text, if the value is one. -/
def text? : Value → Option String
  | .scalar (.str s) => some s
  | _ => none

/-- Whether a value is null. -/
def isNull : Value → Bool
  | .scalar .null => true
  | _ => false

@[simp] theorem get?_map (o : Nat) (es : Entries) (name : String) :
    (Value.map o es).get? name = find? (.str name) es := rfl

@[simp] theorem members_seq (items : List Value) : (Value.seq items).members = .ok items := rfl

/-- What stands under a key is smaller than the entries it stands in. -/
theorem sizeOf_lt_of_find? {key : Scalar} {es : Entries} {v : Value}
    (h : find? key es = some v) : sizeOf v < sizeOf es := by
  induction es with
  | nil => simp at h
  | cons e rest ih =>
    obtain ⟨k, w⟩ := e
    unfold find? at h
    split at h
    · obtain rfl := Option.some.inj h
      simp only [List.cons.sizeOf_spec, Prod.mk.sizeOf_spec]
      omega
    · have := ih h
      simp only [List.cons.sizeOf_spec, Prod.mk.sizeOf_spec]
      omega

/-- A field is smaller than the mapping it belongs to. -/
theorem sizeOf_lt_of_get? {v w : Value} {name : String} (h : v.get? name = some w) :
    sizeOf w < sizeOf v := by
  unfold get? at h
  split at h
  · have := sizeOf_lt_of_find? h
    simp only [map.sizeOf_spec]
    omega
  · simp at h

/-- A value refuses to give a field exactly if it is no mapping. -/
theorem field_eq_error_iff (v : Value) (name : String) (e : Fault) :
    v.field name = .error e ↔ v.isMap = false ∧ e = .refused .notAMapping := by
  unfold field
  cases h : v.isMap <;> simp [eq_comm]

end OpenApiClient.Value
