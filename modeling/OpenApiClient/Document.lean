import OpenApiClient.Json.Reader
import OpenApiClient.Log
import OpenApiClient.Value.Access
import OpenApiClient.Value.Text
import OpenApiClient.Yaml.Content

/-!
# Documents

A document is a mapping, written as JSON or, failing that, as YAML.  The texts of all its
references are kept with it, since every walk along references draws on them.
-/

namespace OpenApiClient

/-- A described interface: its root, and the texts of the references in it. -/
structure Document where
  root : Value
  pointers : List String := root.pointers
  pointers_eq : pointers = root.pointers := by rfl

namespace Document

/-- The document with a root. -/
def ofValue (root : Value) : Document := { root }

@[simp] theorem root_ofValue (v : Value) : (ofValue v).root = v := rfl

@[simp] theorem pointers_ofValue (v : Value) : (ofValue v).pointers = v.pointers := rfl

/-- A root must be a mapping. -/
def requireMap (v : Value) : Except Fault Value :=
  match v with
  | .map o es => .ok (.map o es)
  | .scalar .null => .error (.of (.notAnObject "empty document"))
  | v => .error (.of (.notAnObject v.kindName))

/-- The root written by a text, with what is noted on the way.  The text is read as JSON and,
where it is none, as YAML. -/
def parse (text : String) : List Record × Except Fault Value :=
  match Json.read text with
  | .ok v => ([], requireMap v)
  | .error .tooManyDigits => ([], .error (.refused .notANumber))
  | .error (.malformed defect) =>
    ([⟨.debug, "parser.loader",
        "JSON parsing failed (" ++ defect.message ++ "), retrying as YAML"⟩],
      match Yaml.read text with
      | .ok v => requireMap v
      | .error .malformed => .error (.of (.malformedDocument defect))
      | .error (.refused r) => .error (.refused r))

/-- The version of the format that a root declares; only versions that start with `3.` can be
used. -/
def version (root : Value) : Except Fault String :=
  match root.get? "swagger" with
  | some v => .error (.of (.oldFormat v.text))
  | none =>
    let declared := root.get "openapi"
    if declared.isNull then .error (.of .missingVersion)
    else if Text.startsWith declared.text.toList ['3', '.'] then .ok declared.text
    else .error (.of (.unsupportedVersion declared.text))

/-- A text that is JSON gives its JSON value or none at all. -/
theorem parse_of_json {text : String} {v : Value} (h : Json.read text = .ok v) :
    parse text = ([], requireMap v) := by
  simp [parse, h]

/-- What is read as a root is a mapping. -/
theorem requireMap_eq_ok {v w : Value} (h : requireMap v = .ok w) : w = v ∧ w.isMap = true := by
  unfold requireMap at h
  split at h <;> simp_all [Value.isMap]
  subst h; simp

end Document

end OpenApiClient
