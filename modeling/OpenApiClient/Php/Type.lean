import OpenApiClient.Text.Letter
import OpenApiClient.Value.Access
import OpenApiClient.Value.Text

/-!
# PHP types

The type of a described value as a PHP type.  The primitive types have fixed counterparts; a
name that starts with a capital is a class; everything else is of any type, which a
signature leaves out.
-/

namespace OpenApiClient.Php

/-- Primitive types and their counterparts. -/
def primitives : List (String × String) :=
  [("string", "string"), ("integer", "int"), ("number", "float"), ("boolean", "bool"),
    ("array", "array"), ("object", "object")]

/-- The type that stands for any. -/
def mixed : String := "mixed"

/-- Whether a type is primitive. -/
def isPrimitive (type : String) : Bool := (primitives.lookup type).isSome

/-- Whether a text starts with a capital letter. -/
def startsCapital (s : String) : Bool := s.toList.head?.any Text.isCapital

/-- The PHP type of a type; a binary text may be of any type. -/
def typeOf (type : String) (binary : Bool) : String :=
  match primitives.lookup type with
  | some t => if type = "string" && binary then mixed else t
  | none => if startsCapital type then type else mixed

/-- The PHP type of a type and a format that come from a document unchecked. -/
def typeOfValue (type format : Value) : Except Fault String :=
  match type with
  | .scalar (.str s) => .ok (typeOf s (format.same (.str "binary")))
  | .scalar (.bytes bs) => if bs.isEmpty then .ok mixed else .error (.refused .notAMoment)
  | .scalar s => if (Value.scalar s).isFilled then .error (.refused .notIndexable) else .ok mixed
  | .pair a b =>
    if !(Value.pair a b).isKey then .error (.refused .notAKey)
    else match a with
      | .scalar (.str s) => .ok (if startsCapital s then (Value.pair a b).text else mixed)
      | _ => .error (.refused .notAMoment)
  | _ => .error (.refused .notAKey)

/-- The documented type: an array with known items is written as its items' type and
brackets. -/
def docTypeOfValue (type format items : Value) : Except Fault String :=
  if type.same (.str "array") && items.isFilled then
    (typeOfValue items .null).map (· ++ "[]")
  else typeOfValue type format

/-- The documented type of checked values. -/
def docType (type : String) (format items : Option String) : String :=
  match items with
  | some i => if type = "array" && i ≠ "" then typeOf i false ++ "[]"
    else typeOf type (format = some "binary")
  | none => typeOf type (format = some "binary")

end OpenApiClient.Php
