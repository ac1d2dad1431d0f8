import OpenApiClient.Fault
import OpenApiClient.Value.Access
import OpenApiClient.Value.Text

/-!
# Documentation comments in PHP

Texts of the description go into documentation comments line by line.  Of the description of
a parameter only the first line is shown; what is no text has no lines, which the writing of
a file reports under the name of the file's template.
-/

namespace OpenApiClient.Php

open Text

/-- A line of a comment inside a class; nothing follows the star of an empty one. -/
def commentLine (line : String) : String :=
  if line.isEmpty then "     *" else "     * " ++ line

/-- The lines of a summary and an empty line after them, nothing for an empty one. -/
def summaryLines (summary : Option String) : List String :=
  match summary.filter (!·.isEmpty) with
  | none => []
  | some s => (textLines s).map ("     * " ++ ·) ++ ["     *"]

/-- The lines of a description and an empty line after them, nothing for an empty one. -/
def descriptionLines (description : Option String) : List String :=
  match description.filter (!·.isEmpty) with
  | none => []
  | some s => (textLines s).map commentLine ++ ["     *"]

/-- What the kind of a value is called when it has no lines. -/
def objectName : Value → String
  | .scalar (.date _) => "datetime.date object"
  | .scalar (.moment _) => "datetime.datetime object"
  | v => v.kindName ++ " object"

/-- The bytes before the first end of a line. -/
def firstByteLine (bs : List UInt8) : List UInt8 :=
  bs.takeWhile fun b => b != 10 && b != 13

/-- The first line of the description of a parameter. -/
def firstLine (template : String) (description : Value) : Except Fault String :=
  match description with
  | .scalar (.str s) => .ok ((textLines s).headD "")
  | .scalar (.bytes bs) => .ok (quotedBytes (firstByteLine bs))
  | v =>
    if v.has "splitlines" then .error (.refused .notCallable)
    else .error (.of (.templateFailed template
      ("'" ++ objectName v ++ "' has no attribute 'splitlines'")))

/-- What stands behind the variable of a documented parameter. -/
def parameterRemark (template : String) (description : Value) : Except Fault String :=
  if description.isFilled then (firstLine template description).map (" " ++ ·) else .ok ""

end OpenApiClient.Php
