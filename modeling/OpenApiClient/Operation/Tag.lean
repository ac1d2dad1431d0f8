import OpenApiClient.Text.Basic
import OpenApiClient.Text.Letter

/-!
# Tags

A tag places an operation on a class if it has two parts with a colon between them: the kind
of the class and its name.  Tags of any other form place nothing.
-/

namespace OpenApiClient

/-- The kinds of classes that operations are placed on. -/
inductive ClassKind where
  | manager
  | resource
  deriving DecidableEq, Repr

namespace ClassKind

/-- The kind as tags spell it. -/
def key : ClassKind → String
  | manager => "Manager"
  | resource => "Resource"

/-- The kind that a tag spells. -/
def ofKey? (s : String) : Option ClassKind :=
  if s = manager.key then some manager
  else if s = resource.key then some resource
  else none

@[simp] theorem ofKey?_key (k : ClassKind) : ofKey? k.key = some k := by cases k <;> decide

end ClassKind

namespace Tag

/-- The class that a tag places operations on: its kind, and its name with a capital. -/
def target? (tag : String) : Option (ClassKind × String) :=
  match Text.cut ':' tag with
  | [kind, name] =>
    if name.isEmpty then none
    else (ClassKind.ofKey? kind).map fun k => (k, Text.capitalizeFirst name)
  | _ => none

/-- The classes that tags place an operation on, each where it is first named. -/
def targets (tags : List String) : List (ClassKind × String) :=
  (tags.filterMap target?).foldl
    (fun found t => if found.contains t then found else found ++ [t]) []

end Tag

end OpenApiClient
