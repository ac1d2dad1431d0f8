/-!
# Response expressions

How a graph of objects is built from a decoded response body: which field feeds which argument
of which constructor.  Fields are read from the body itself or from the element of a list that
is walked through; walks inside walks have elements of their own, told apart by their depth.
-/

namespace OpenApiClient

/-- What fields are read from: the response body, or the element of the list walked through at
a depth. -/
inductive Binding where
  | body (depth : Nat)
  | element (depth : Nat)
  deriving DecidableEq, Repr

namespace Binding

/-- The binding from which every expression starts. -/
abbrev response : Binding := .body 0

/-- The depth of a binding. -/
def depth : Binding → Nat
  | body d => d
  | element d => d

/-- The elements of a list read from a binding. -/
def inner (b : Binding) : Binding := .element (b.depth + 1)

@[simp] theorem depth_inner (b : Binding) : b.inner.depth = b.depth + 1 := rfl

end Binding

/-- A read along a path of fields.  A guarded read gives null where the path leads nowhere. -/
structure FieldRead where
  binding : Binding := .response
  path : List String := []
  guarded : Bool := false
  deriving DecidableEq, Repr

/-- How an object is built. -/
inductive Expression where
  /-- The value of a field. -/
  | field (read : FieldRead)
  /-- A new object, with an argument for each property. -/
  | construct (target : String) (arguments : List Expression)
  /-- A list, element by element. -/
  | arrayMap (source : FieldRead) (element : Binding) (body : Expression)
  /-- An expression where the subject is there, null elsewhere. -/
  | nullGuard (subject : FieldRead) (body : Expression)
  /-- Null in place of a type that is being built further outside. -/
  | null (typeName : String)
  deriving Repr, Inhabited

namespace Expression

mutual

/-- The types that an expression builds, in order and with repetitions. -/
def targets : Expression → List String
  | .field _ => []
  | .construct target arguments => target :: targetsOfAll arguments
  | .arrayMap _ _ body => body.targets
  | .nullGuard _ body => body.targets
  | .null _ => []

/-- `targets` of every argument. -/
def targetsOfAll : List Expression → List String
  | [] => []
  | e :: rest => e.targets ++ targetsOfAll rest

end

/-- The texts of a list, each where it is first met. -/
def firstMet (names : List String) : List String :=
  names.foldl (fun found n => if found.contains n then found else found ++ [n]) []

/-- The types that an expression builds, each where it is first met. -/
def dependencies (e : Expression) : List String := firstMet e.targets

end Expression

end OpenApiClient
