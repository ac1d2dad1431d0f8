/-!
# Defects of JSON texts

What is wrong with a text that is no JSON, and where.  A place is told by line, column and
the number of characters before it.
-/

namespace OpenApiClient.Json

/-- What is wrong. -/
inductive Problem where
  | expectedValue
  | expectedName
  | expectedColon
  | expectedComma
  | extraData
  | unterminatedText
  | controlCharacter
  | invalidEscape
  | invalidUnicodeEscape
  | byteOrderMark
  deriving DecidableEq, Repr

/-- The wording of a problem. -/
def Problem.message : Problem → String
  | .expectedValue => "Expecting value"
  | .expectedName => "Expecting property name enclosed in double quotes"
  | .expectedColon => "Expecting ':' delimiter"
  | .expectedComma => "Expecting ',' delimiter"
  | .extraData => "Extra data"
  | .unterminatedText => "Unterminated string starting at"
  | .controlCharacter => "Invalid control character at"
  | .invalidEscape => "Invalid \\escape"
  | .invalidUnicodeEscape => "Invalid \\uXXXX escape"
  | .byteOrderMark => "Unexpected UTF-8 BOM (decode using utf-8-sig)"

/-- A problem and its place. -/
structure Defect where
  problem : Problem
  line : Nat
  column : Nat
  position : Nat
  deriving DecidableEq, Repr

/-- The wording of a defect. -/
def Defect.message (f : Defect) : String :=
  f.problem.message ++ ": line " ++ toString f.line ++ " column " ++ toString f.column ++
    " (char " ++ toString f.position ++ ")"

/-- The place of a position in a text. -/
def Defect.at (problem : Problem) (text : List Char) (position : Nat) : Defect :=
  let before := text.take position
  let line := before.count '\n' + 1
  let column := (before.reverse.takeWhile (· != '\n')).length + 1
  ⟨problem, line, column, position⟩

end OpenApiClient.Json
