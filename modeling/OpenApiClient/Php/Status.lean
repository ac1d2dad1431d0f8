import OpenApiClient.Fault
import OpenApiClient.Text.Digit
import OpenApiClient.Text.Letter

/-!
# Unexpected status codes in PHP

The condition under which the status of a response is not the expected one.  A number is
compared as it is; a digit with two letters `X` after it stands for a hundred codes; anything
else expects success of any kind.
-/

namespace OpenApiClient.Php

open Text

/-- The status of the response. -/
def statusCode : String := "$response->getStatusCode()"

/-- Success of any kind is expected. -/
def anyFailure : String := statusCode ++ " < 200 || " ++ statusCode ++ " >= 300"

/-- The digit of a range of a hundred codes. -/
def rangeDigit? (code : String) : Option Char :=
  match code.toList with
  | [digit, a, b] =>
    if isDigit digit && capital (String.ofList [a, b]) = "XX" then some digit else none
  | _ => none

/-- The condition for a status that is not the expected one. -/
def unexpectedStatus : Option String → Except Fault String
  | none => .ok anyFailure
  | some code =>
    if isDigits code then
      match decimal? code.toList with
      | some n => .ok (statusCode ++ " != " ++ toString n)
      | none => .error (.refused .notANumber)
    else match rangeDigit? code with
      | some digit =>
        .ok ("intdiv(" ++ statusCode ++ ", 100) != " ++ String.singleton digit)
      | none => .ok anyFailure

end OpenApiClient.Php
