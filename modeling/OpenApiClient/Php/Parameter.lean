import OpenApiClient.Parameter.Basic
import OpenApiClient.Php.Type

/-!
# Parameters in PHP

How a parameter appears in a method: where its value is read, how it is declared, and how it
is documented.  A parameter that is not required is null by default.
-/

namespace OpenApiClient.Php

open Text

/-- The member variable that holds a property. -/
def memberOf (property : String) : String := "$this->" ++ Name.variableName property

/-- The method that reads a property. -/
def getterOf (property : String) : String :=
  "get" ++ capitalizeFirst (Name.variableName property)

/-- The value of a parameter inside a method.  A property without a name provides nothing. -/
def valueOf (variableName : String) : Source → String
  | .argument => "$" ++ variableName
  | .ownId => "$this->id"
  | .property name part =>
    if name.isEmpty then "$" ++ variableName
    else match part.filter (!·.isEmpty) with
      | none => memberOf name
      | some part => memberOf name ++ "->" ++ getterOf part ++ "()"

/-- The value of a parameter inside a method. -/
def parameterValue (p : Parameter) : String := valueOf p.variableName p.source

/-- The documented type of a parameter. -/
def parameterDocType (p : Parameter) : Except Fault String :=
  (docTypeOfValue p.type p.format p.items).map fun t => if p.required then t else t ++ "|null"

/-- The declaration of a parameter in the signature of a method. -/
def parameterDeclaration (p : Parameter) : Except Fault String :=
  (typeOfValue p.type p.format).map fun hint =>
    let named := "$" ++ p.variableName
    let hinted :=
      if hint = mixed then named
      else (if p.required then hint else "?" ++ hint) ++ " " ++ named
    if p.required then hinted else hinted ++ " = null"

end OpenApiClient.Php
