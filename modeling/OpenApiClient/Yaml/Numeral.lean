import OpenApiClient.Decimal.Binary64
import OpenApiClient.Text.Digit
import OpenApiClient.Text.Letter
import OpenApiClient.Value.Basic
import OpenApiClient.Yaml.Tag
import OpenApiClient.Yaml.Cursor

/-!
# Scalars from their texts

The value of a scalar whose tag is known.  The tag may come from the form of the text or may
have been given by the writer, so the text need not fit it.
-/

namespace OpenApiClient.Yaml

open Decimal Calendar

/-- Digits of all scripts as the ten ASCII ones, and blanks as spaces. -/
def plainDigits (cs : List Char) : List Char :=
  cs.map fun c =>
    if Text.isBlank c then ' '
    else match Text.decimalValue? c with
      | some d => Char.ofNat (48 + d)
      | none => c

/-- The text between the blanks at its ends. -/
def trimmed (cs : List Char) : List Char := Text.trim (· = ' ') (plainDigits cs)

/-- The value of a digit below a base up to sixteen. -/
def digitBelow? (base : Nat) (c : Char) : Option Nat :=
  (Text.hexValue? c).filter (· < base)

/-- Drops the letters that announce a base, if that base is meant. -/
def dropBase (base : Nat) : List Char → List Char
  | '0' :: x :: rest =>
    if (base = 2 && (x = 'b' || x = 'B')) || (base = 8 && (x = 'o' || x = 'O')) ||
        (base = 16 && (x = 'x' || x = 'X')) then rest
    else '0' :: x :: rest
  | cs => cs

/-- The integer written by a text to a base.  Only to base ten is the number of digits
limited. -/
def integer? (base : Nat) (cs : List Char) : Option Int := do
  let cs := trimmed cs
  let digits := dropBase base (dropSign cs)
  guard !digits.isEmpty
  guard (base ≠ 10 || digits.length ≤ Text.digitLimit)
  let values ← digits.mapM (digitBelow? base)
  let n : Int := (values.foldl (fun n d => base * n + d) 0 : Nat)
  return if cs.head? = some '-' then -n else n

/-- The number written by a row of digits. -/
def count (digits : List Char) : Nat :=
  digits.foldl (fun n d => 10 * n + (d.toNat - 48)) 0

/-- The exponent that is written behind the digits of a number, if one is. -/
def exponent? : List Char → Option Int
  | [] => some 0
  | e :: rest => do
    guard (e = 'e' || e = 'E')
    let digits := dropSign rest
    guard (!digits.isEmpty && digits.all (isDigitTo '9'))
    return if rest.head? = some '-' then -(count digits : Int) else count digits

/-- The digits behind a point, if there is one, with what follows. -/
def behindPoint : List Char → List Char × List Char
  | '.' :: rest => (rest.takeWhile (isDigitTo '9'), rest.dropWhile (isDigitTo '9'))
  | rest => ([], rest)

/-- The floating-point number written by digits with a point and an exponent. -/
def decimalFraction? (cs : List Char) : Option Binary64 := do
  let whole := cs.takeWhile (isDigitTo '9')
  let (fraction, rest) := behindPoint (cs.drop whole.length)
  guard !(whole.isEmpty && fraction.isEmpty)
  let exponent ← exponent? rest
  return Binary64.ofDecimal (count (whole ++ fraction)) (exponent - fraction.length)

/-- The floating-point number written by a text. -/
def float? (cs : List Char) : Option Binary64 :=
  let cs := trimmed cs
  let body := dropSign cs
  let word := Text.small (String.ofList body)
  let magnitude? :=
    if word = "inf" || word = "infinity" then some Binary64.infinity
    else if word = "nan" then some Binary64.nan
    else decimalFraction? body
  magnitude?.map fun x => if cs.head? = some '-' then x.negate else x

/-- The value of the parts of a number to base 60, last part first. -/
def sixtieths (parts : List Int) : Int :=
  parts.foldr (fun d n => d + 60 * n) 0

/-- The same for floating-point parts, added up from the last part on. -/
def floatSixtieths (parts : List Float) : Float :=
  (parts.foldl (fun (total, base) d => (total + d * base, base * 60)) ((0 : Float), (1 : Float))).1

/-- A part of a number must be readable. -/
def orRefused {α : Type} (refusal : Refusal) : Option α → Except Stop α
  | some x => .ok x
  | none => .error (.refused refusal)

/-- A text without its underscores. -/
def unspaced (cs : List Char) : List Char := cs.filter (· != '_')

/-- The integer that is written behind a sign. -/
def magnitude : List Char → Except Stop Int
  | [] => .error (.refused .outOfRange)
  | ['0'] => .ok 0
  | '0' :: 'b' :: digits => orRefused .notANumber (integer? 2 digits)
  | '0' :: 'x' :: digits => orRefused .notANumber (integer? 16 digits)
  | '0' :: digits => orRefused .notANumber (integer? 8 ('0' :: digits))
  | cs =>
    if cs.contains ':' then
      (orRefused .notANumber ((Text.pieces ':' cs).mapM (integer? 10))).map fun parts =>
        sixtieths parts.reverse
    else orRefused .notANumber (integer? 10 cs)

/-- An integer from its text. -/
def integer (s : String) : Except Stop Int :=
  let cs := unspaced s.toList
  (magnitude (dropSign cs)).map fun n => if cs.head? = some '-' then -n else n

/-- The floating-point number that is written behind a sign. -/
def floatMagnitude (cs : List Char) : Except Stop Binary64 :=
  let word := String.ofList cs
  if word = ".inf" then .ok Binary64.infinity
  else if word = ".nan" then .ok Binary64.nan
  else if cs.contains ':' then
    (orRefused .notANumber ((Text.pieces ':' cs).mapM float?)).map fun parts =>
      Binary64.ofFloat (floatSixtieths (parts.map Binary64.toFloat).reverse)
  else orRefused .notANumber (float? cs)

/-- A floating-point number from its text. -/
def floating (s : String) : Except Stop Binary64 :=
  let cs := unspaced (Text.small s).toList
  if cs.isEmpty then .error (.refused .outOfRange)
  else (floatMagnitude (dropSign cs)).map fun x => if cs.head? = some '-' then x.negate else x

/-- A truth value from its word, in any mixture of capitals. -/
def boolean (s : String) : Except Stop Bool :=
  orRefused .notABoolean (booleanWords.lookup (Text.small s))

/-- The distance from universal time that a zone states, in seconds. -/
def zoneOffset : List Char → Int
  | sign :: rest =>
    let hours := rest.takeWhile (· != ':')
    let minutes := rest.drop (hours.length + 1)
    let seconds : Int := count hours * 3600 + count minutes * 60
    if sign = 'Z' then 0 else if sign = '-' then -seconds else seconds
  | [] => 0

/-- A date or a point in time from its text.  Of a fraction six digits count. -/
def stamp (s : String) : Except Stop Scalar := do
  let parts ← orRefused .notAMoment (stamp? s.toList)
  let date ← orRefused .notADate (Date.of? (count parts.year) (count parts.month) (count parts.day))
  match parts.time with
  | none => return .date date
  | some (hour, minute, second) =>
    let micro := count ((parts.fraction ++ List.replicate 6 '0').take 6)
    let moment ← orRefused .notADate (Moment.of? date (count hour) (count minute) (count second)
      micro (parts.zone.map zoneOffset))
    return .moment moment

/-- The value of a character in base 64. -/
def base64Value? (c : Char) : Option Nat :=
  if 'A' ≤ c && c ≤ 'Z' then some (c.toNat - 65)
  else if 'a' ≤ c && c ≤ 'z' then some (c.toNat - 71)
  else if '0' ≤ c && c ≤ '9' then some (c.toNat + 4)
  else if c = '+' then some 62
  else if c = '/' then some 63
  else none

/-- Bytes from base 64.  `place` counts the characters of the present group of four, `left`
holds the bits that belong to the next byte, and `pads` counts the equal signs met in a row.
Other characters are passed over; a group must be whole or be filled with equal signs. -/
def base64? : (place left pads : Nat) → List Char → Option (List UInt8)
  | place, _, _, [] => if place = 0 then some [] else none
  | place, left, pads, c :: rest =>
    if c = '=' then
      if 2 ≤ place then
        if 4 ≤ place + (pads + 1) then some [] else base64? place left (pads + 1) rest
      else base64? place left pads rest
    else match base64Value? c with
      | none => base64? place left pads rest
      | some v =>
        match place with
        | 0 => base64? 1 v 0 rest
        | 1 => (base64? 2 (v % 16) 0 rest).map (UInt8.ofNat (left * 4 + v / 16) :: ·)
        | 2 => (base64? 3 (v % 4) 0 rest).map (UInt8.ofNat (left * 16 + v / 4) :: ·)
        | _ => (base64? 0 0 0 rest).map (UInt8.ofNat (left * 64 + v) :: ·)

/-- Bytes from their text. -/
def binary (s : String) : Except Stop (List UInt8) :=
  if s.toList.all (·.toNat < 128) then
    match base64? 0 0 0 s.toList with
    | some bytes => .ok bytes
    | none => .error .malformed
  else .error .malformed

end OpenApiClient.Yaml
