import OpenApiClient.Decimal.Binary64
import OpenApiClient.Text.Basic

/-!
# The shortest decimal that reads back

A floating-point number stands for all reals that round to it.  Among the decimals in that
interval the ones with the fewest digits are preferred, and of those the nearest.
-/

namespace OpenApiClient.Decimal

/-- Digits and a power of ten: `digits · 10 ^ exponent`. -/
structure Scientific where
  digits : Nat
  exponent : Int
  deriving DecidableEq, Repr

/-- The interval of reals that round to `mantissa · 2 ^ exponent`, in quarters of the last
binary place: lower end, value, upper end. -/
def quarters (mantissa : Nat) (isLowest : Bool) : Nat × Nat × Nat :=
  (4 * mantissa - (if mantissa = Nat.pow 2 52 && !isLowest then 1 else 2), 4 * mantissa,
    4 * mantissa + 2)

/-- The decimal on the grid of `10 ^ place` that reads back as `mantissa · 2 ^ exponent`, the
nearer one if both neighbours do, the even one if they are equally near. -/
def onGrid? (mantissa : Nat) (exponent : Int) (isLowest : Bool) (place : Int) :
    Option Scientific :=
  let (low, value, high) := quarters mantissa isLowest
  let q := exponent - 2
  let scale := Nat.pow 2 q.toNat * Nat.pow 10 (-place).toNat
  let unit := Nat.pow 2 (-q).toNat * Nat.pow 10 place.toNat
  let reads (d : Nat) : Bool :=
    if mantissa % 2 = 0 then low * scale ≤ d * unit && d * unit ≤ high * scale
    else low * scale < d * unit && d * unit < high * scale
  let below := value * scale / unit
  let rest := value * scale - below * unit
  let above := below + 1
  let downIsNearer := 2 * rest < unit || (2 * rest = unit && below % 2 = 0)
  match reads below && below != 0, reads above with
  | true, true => some ⟨if downIsNearer then below else above, place⟩
  | true, false => some ⟨below, place⟩
  | false, true => some ⟨above, place⟩
  | false, false => none

/-- The power of ten of the leading digit of `mantissa · 2 ^ exponent`. -/
def leadingPlace (mantissa : Nat) (exponent : Int) : Int :=
  if 0 ≤ exponent then ((toString (mantissa * Nat.pow 2 exponent.toNat)).length : Int) - 1
  else
    let scaled := mantissa * Nat.pow 10 400 / Nat.pow 2 (-exponent).toNat
    ((toString scaled).length : Int) - 401

/-- Drops zeros at the end of the digits. -/
def Scientific.strip : Nat → Scientific → Scientific
  | steps + 1, s =>
    if s.digits ≠ 0 && s.digits % 10 = 0 then strip steps ⟨s.digits / 10, s.exponent + 1⟩
    else s
  | 0, s => s

/-- The shortest decimal of a finite number that is not zero. -/
def shortest (mantissa : Nat) (exponent : Int) (isLowest : Bool) : Scientific :=
  let lead := leadingPlace mantissa exponent
  let found := (List.range 17).findSome? fun (n : Nat) =>
    onGrid? mantissa exponent isLowest (lead - (n : Nat))
  Scientific.strip 20 (found.getD ⟨mantissa, 0⟩)

/-- The digits of a decimal with its point; positional notation for leading places from
`10 ^ -4` to `10 ^ 15`, otherwise an exponent of two digits at least. -/
def Scientific.text (s : Scientific) : String :=
  let digits := (toString s.digits).toList
  let count := digits.length
  let point : Int := count + s.exponent
  if -4 < point && point ≤ 16 then
    if point ≤ 0 then
      "0." ++ String.ofList (List.replicate (-point).toNat '0' ++ digits)
    else if count ≤ point.toNat then
      String.ofList (digits ++ List.replicate (point.toNat - count) '0') ++ ".0"
    else
      String.ofList (digits.take point.toNat) ++ "." ++ String.ofList (digits.drop point.toNat)
  else
    let e := point - 1
    let fraction := if count = 1 then "" else "." ++ String.ofList (digits.drop 1)
    String.ofList (digits.take 1) ++ fraction ++ "e" ++ (if e < 0 then "-" else "+") ++
      Text.padded 2 e.natAbs

/-- The text of a floating-point number. -/
def Binary64.text (x : Binary64) : String :=
  if x.isNaN then "nan"
  else
    let magnitude :=
      if x.isInfinite then "inf"
      else if x.isZero then "0.0"
      else (shortest x.mantissa x.exponent (x.exponentField ≤ 1)).text
    if x.isNegative then "-" ++ magnitude else magnitude

end OpenApiClient.Decimal
