import OpenApiClient.Text.Utf8
import OpenApiClient.Value.Access
import OpenApiClient.Value.Text

/-!
# Filling records

A record is filled with values of a document.  Every field of the wrong kind is reported, in
the order of the fields, and the record is filled only if there is none.  Where a text is
needed, bytes that write one will do, and the record holds the text.
-/

namespace OpenApiClient.Fields

/-- The text that a value stands for: texts themselves, and bytes that write one. -/
def reading : Value → Except IssueKind String
  | .scalar (.str s) => .ok s
  | .scalar (.bytes bs) =>
    match Text.decodeUtf8 bs with
    | .ok s => .ok s
    | .error _ => .error .textUnreadable
  | _ => .error .textExpected

/-- The text that a record holds for a value, none if it stands for none. -/
def textOf? (v : Value) : Option String := (reading v).toOption

/-- The text that a record holds for a value that stands for one. -/
def textOf (v : Value) : String := (textOf? v).getD ""

/-- The value as a record holds it where a text is needed: its text, or null. -/
def plain (v : Value) : Value := (textOf? v).elim .null .str

/-- A field that must hold a text. -/
def text (field : String) (v : Value) : Option Issue :=
  match reading v with
  | .ok _ => none
  | .error kind => some { field, kind }

/-- A field that may be null and must hold a text otherwise. -/
def optionalText (field : String) (v : Value) : Option Issue :=
  if v.isNull then none else text field v

/-- A field that must be there and hold a text. -/
def presentText (field : String) (v : Option Value) : Option Issue :=
  match v with
  | none => some { field, kind := .missing }
  | some v => text field v

/-- How reports name a key: numbers by themselves, if they have no more than 64 bits, and
everything else by its text. -/
def placeOfKey : Scalar → IssuePlace
  | .str s => .name s
  | .bool b => .number (if b then 1 else 0)
  | .int n =>
    if -(Nat.pow 2 63 : Int) ≤ n && n < Nat.pow 2 63 then .number n
    else .name (if Scalar.hasText (.int n) then toString n else "<unprintable int object>")
  | key => .name key.shown

/-- What is wrong with a key.  Keys stay as they stand, so bytes are refused even if they write a
text. -/
def keyKind : Scalar → Option IssueKind
  | .str _ => none
  | .bytes bs =>
    match Text.decodeUtf8 bs with
    | .ok _ => some .textExpected
    | .error _ => some .textUnreadable
  | _ => some .textExpected

/-- A key that must be a text, of a mapping at a place within a field. -/
def key (field : String) (place : List IssuePlace) (k : Scalar) : Option Issue :=
  (keyKind k).map fun kind => ⟨field, place ++ [placeOfKey k, .name "[key]"], kind⟩

/-- What is wrong with a value that must be a mapping with texts as keys, and stands at a place
within a field.  Every key that is no text is reported at its own place. -/
def mapping (field : String) (place : List IssuePlace) : Value → List Issue
  | .map _ es => (es.map (·.1)).filterMap (key field place)
  | _ => [⟨field, place, .mappingExpected⟩]

/-- What is wrong with a field that may be null and must hold a mapping with texts as keys
otherwise. -/
def optionalMapping (field : String) (v : Value) : List Issue :=
  if v.isNull then [] else mapping field [] v

/-- What is wrong with a field that must hold a list of mappings with texts as keys. -/
def mappings (field : String) (vs : List Value) : List Issue :=
  vs.zipIdx.flatMap fun (v, i) => mapping field [.number i] v

/-- Words that stand for true, in small letters. -/
def trueWords : List String := ["1", "t", "y", "yes", "on", "true"]

/-- Words that stand for false, in small letters. -/
def falseWords : List String := ["0", "f", "n", "no", "off", "false"]

/-- The bound below which whole numbers are read as truth values: those of 64 bits. -/
def numberBound : Nat := 9223372036854775808

/-- The truth value that a number stands for: 0 and 1 do.  Fractions and numbers beyond the
bound are not even read. -/
def truthOfNumber (x : Int × Nat) : Except IssueKind Bool :=
  if x.2 ≠ 0 || numberBound ≤ x.1.natAbs then .error .booleanExpected
  else if x.1 = 0 then .ok false
  else if x.1 = 1 then .ok true
  else .error .booleanUnreadable

/-- The truth value that a value stands for: truth values themselves, the numbers 0 and 1, and
some words in letters of either case. -/
def truth : Value → Except IssueKind Bool
  | .scalar (.str s) =>
    let word := String.ofList (s.toList.map Char.toLower)
    if trueWords.contains word then .ok true
    else if falseWords.contains word then .ok false
    else .error .booleanUnreadable
  | .scalar s => (s.number?.map truthOfNumber).getD (.error .booleanExpected)
  | _ => .error .booleanExpected

/-- A field that must stand for a truth value. -/
def boolean (field : String) (v : Value) : Option Issue :=
  match truth v with
  | .ok _ => none
  | .error kind => some { field, kind }

/-- The record, if no field has an issue. -/
def fill {α : Type} (record : RecordKind) (issues : List (Option Issue)) (value : α) :
    Except Fault α :=
  match issues.filterMap id with
  | [] => .ok value
  | found => .error (.invalid record found)

/-- A record is filled exactly if no field has an issue. -/
theorem fill_eq_ok_iff {α : Type} (record : RecordKind) (issues : List (Option Issue))
    (value result : α) :
    fill record issues value = .ok result ↔ issues.filterMap id = [] ∧ value = result := by
  unfold fill
  cases h : issues.filterMap id <;> simp

@[simp] theorem reading_str (s : String) : reading (.str s) = .ok s := rfl

@[simp] theorem textOf?_str (s : String) : textOf? (.str s) = some s := rfl

@[simp] theorem textOf_str (s : String) : textOf (.str s) = s := rfl

@[simp] theorem textOf?_null : textOf? .null = none := rfl

@[simp] theorem plain_str (s : String) : plain (.str s) = .str s := rfl

@[simp] theorem plain_null : plain .null = .null := rfl

/-- A field that must hold a text has no issue exactly if its value stands for one. -/
theorem text_eq_none_iff {field : String} {v : Value} :
    text field v = none ↔ ∃ s, reading v = .ok s := by
  unfold text
  cases reading v <;> simp

/-- A field that may be null has no issue exactly if its value is null or stands for a text. -/
theorem optionalText_eq_none_iff {field : String} {v : Value} :
    optionalText field v = none ↔ v = .null ∨ ∃ s, reading v = .ok s := by
  unfold optionalText
  split
  · next h =>
    refine ⟨fun _ => .inl ?_, fun _ => rfl⟩
    unfold Value.isNull at h
    split at h
    · rfl
    · cases h
  · next h =>
    rw [text_eq_none_iff]
    refine ⟨.inr, fun hv => hv.resolve_left ?_⟩
    rintro rfl
    exact h rfl

/-- What stands for a text is held as that text. -/
theorem textOf_of_reading {v : Value} {s : String} (h : reading v = .ok s) : textOf v = s := by
  rw [textOf, textOf?, h]
  rfl

theorem textOf?_of_reading {v : Value} {s : String} (h : reading v = .ok s) :
    textOf? v = some s := by
  rw [textOf?, h]
  rfl

end OpenApiClient.Fields
