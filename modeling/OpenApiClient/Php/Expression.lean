import OpenApiClient.Expression.Basic
import OpenApiClient.Php.Quoted
import OpenApiClient.Text.Basic

/-!
# Expressions in PHP

A constructor call stands with one argument on each line, one level deeper than the line it
starts on; its first argument is always the client.
-/

namespace OpenApiClient.Php

open Text

/-- The space in front of a line at a depth. -/
def indentation (depth : Nat) : String := String.ofList (List.replicate (4 * depth) ' ')

/-- The variable of a binding. -/
def variableOf : Binding → String
  | .body _ => "$responseBody"
  | .element depth => "$element" ++ toString depth

/-- A read without a guard. -/
def accessOf (read : FieldRead) : String :=
  variableOf read.binding ++ join "" (read.path.map fun key => "[" ++ quote key ++ "]")

/-- An expression where the subject is set, null elsewhere. -/
def whereSet (subject value : String) : String :=
  "(isset(" ++ subject ++ ") ? " ++ value ++ " : null)"

mutual

/-- An expression that starts on a line at a depth. -/
def expression (depth : Nat) : Expression → String
  | .field read =>
    if read.guarded && !read.path.isEmpty then whereSet (accessOf read) (accessOf read)
    else accessOf read
  | .construct target arguments =>
    "new " ++ target ++ "(\n" ++
      join ",\n" ((indentation (depth + 1) ++ "$this->apiClient") ::
        expressionLines (depth + 1) arguments) ++
      "\n" ++ indentation depth ++ ")"
  | .arrayMap source element body =>
    "array_map(function (" ++ variableOf element ++ ") \x7b\n" ++
      indentation (depth + 1) ++ "return " ++ expression (depth + 1) body ++ ";\n" ++
      indentation depth ++ "\x7d, " ++ accessOf source ++ ")"
  | .nullGuard subject body => whereSet (accessOf subject) (expression depth body)
  | .null _ => "null"

/-- The lines of arguments. -/
def expressionLines (depth : Nat) : List Expression → List String
  | [] => []
  | e :: rest => (indentation depth ++ expression depth e) :: expressionLines depth rest

end

end OpenApiClient.Php
