import OpenApiClient.Json.Defect
import OpenApiClient.Text.Digit
import OpenApiClient.Text.Basic
import OpenApiClient.Value.Key

/-!
# Reading JSON

Texts are read as JSON with three words more: `NaN`, `Infinity` and `-Infinity` are numbers.
A name that occurs twice in an object keeps its first place and takes its last value.
Control characters inside texts are refused.  Every two steps
of the reader take at least one character, so twice the length of the text is fuel enough.
-/

namespace OpenApiClient.Json

open Decimal

/-- Why reading stopped: a problem at a position, or a number with too many digits. -/
inductive Stop where
  | problem (problem : Problem) (position : Nat)
  | tooManyDigits
  deriving DecidableEq, Repr

/-- What is left to read, how much was read, and the origin of the next object. -/
structure Cursor where
  rest : List Char
  position : Nat
  origin : Nat
  deriving Repr

/-- Moves over some characters. -/
def Cursor.skip (c : Cursor) (n : Nat) : Cursor :=
  { c with rest := c.rest.drop n, position := c.position + n }

/-- Characters between tokens. -/
def isSpace (c : Char) : Bool := c = ' ' || c = '\t' || c = '\n' || c = '\r'

/-- Moves to the next token. -/
def Cursor.skipSpace (c : Cursor) : Cursor :=
  c.skip (c.rest.takeWhile isSpace).length

/-- The value of four hexadecimal digits. -/
def hex4? : List Char → Option Nat
  | a :: b :: c :: d :: _ => do
    let a ← Text.hexValue? a
    let b ← Text.hexValue? b
    let c ← Text.hexValue? c
    let d ← Text.hexValue? d
    return ((a * 16 + b) * 16 + c) * 16 + d
  | _ => none

/-- The character of a single-letter escape. -/
def escape? : Char → Option Char
  | '"' => some '"'
  | '\\' => some '\\'
  | '/' => some '/'
  | 'b' => some '\x08'
  | 'f' => some '\x0c'
  | 'n' => some '\n'
  | 'r' => some '\r'
  | 't' => some '\t'
  | _ => none

/-- The character of one code unit; a surrogate by itself becomes the replacement
character. -/
def unitChar (n : Nat) : Char :=
  if 0xd800 ≤ n && n < 0xe000 then '\ufffd' else Char.ofNat n

/-- Reads a `\u` escape after its letter: the character and how many characters it took.  A
high surrogate joins a low one that follows at once.  At least one character must stand
after the digits. -/
def unicodeEscape (position : Nat) (rest : List Char) : Except Stop (Char × Nat) :=
  if (rest.drop 4).isEmpty then .error (.problem .invalidUnicodeEscape position)
  else match hex4? rest with
    | none => .error (.problem .invalidUnicodeEscape position)
    | some high =>
      let after := rest.drop 4
      if 0xd800 ≤ high && high < 0xdc00 && !(after.drop 6).isEmpty &&
          after.take 2 = ['\\', 'u'] then
        match hex4? (after.drop 2) with
        | none => .error (.problem .invalidUnicodeEscape (position + 6))
        | some low =>
          if 0xdc00 ≤ low && low < 0xe000 then
            .ok (Char.ofNat (0x10000 + (high - 0xd800) * 0x400 + (low - 0xdc00)), 10)
          else .ok (unitChar high, 4)
      else .ok (unitChar high, 4)

/-- Reads the characters of a text up to its closing quote.  `start` is the position of the
opening quote, and `read` holds the characters so far, last one first. -/
def textFrom (start : Nat) : Nat → Nat → List Char → List Char →
    Except Stop (String × List Char × Nat)
  | 0, _, _, _ => .error (.problem .unterminatedText start)
  | _ + 1, _, _, [] => .error (.problem .unterminatedText start)
  | fuel + 1, position, read, c :: rest =>
    if c = '"' then .ok (String.ofList read.reverse, rest, position + 1)
    else if c.toNat < 32 then .error (.problem .controlCharacter position)
    else if c = '\\' then
      match rest with
      | [] => .error (.problem .unterminatedText start)
      | 'u' :: rest =>
        match unicodeEscape (position + 1) rest with
        | .error stop => .error stop
        | .ok (x, width) =>
          textFrom start fuel (position + 2 + width) (x :: read) (rest.drop width)
      | e :: rest =>
        match escape? e with
        | none => .error (.problem .invalidEscape position)
        | some x => textFrom start fuel (position + 2) (x :: read) rest
    else textFrom start fuel (position + 1) (c :: read) rest

/-- Reads a text whose opening quote was passed. -/
def Cursor.readText (fuel : Nat) (c : Cursor) : Except Stop (String × Cursor) :=
  match textFrom (c.position - 1) fuel c.position [] c.rest with
  | .error stop => .error stop
  | .ok (s, rest, position) => .ok (s, { c with rest, position })

/-- Digits of the decimal system. -/
def isDigit (c : Char) : Bool := '0' ≤ c && c ≤ '9'

/-- A row of digits as a number. -/
def digitsValue (cs : List Char) : Nat :=
  cs.foldl (fun n c => 10 * n + (c.toNat - 48)) 0

/-- The parts of a number: sign, whole digits, digits after the point, and the exponent. -/
structure Numeral where
  negative : Bool
  whole : List Char
  fraction : Option (List Char)
  exponent : Option (Bool × List Char)
  deriving Repr

/-- The longest number at the start of a text, with its length. -/
def numeral? (cs : List Char) : Option (Numeral × Nat) :=
  let negative := cs.head? = some '-'
  let cs := if negative then cs.drop 1 else cs
  let whole := match cs with
    | '0' :: _ => ['0']
    | cs => cs.takeWhile isDigit
  if whole.isEmpty then none
  else
    let cs := cs.drop whole.length
    let digits := (cs.drop 1).takeWhile isDigit
    let fraction := if cs.head? = some '.' && !digits.isEmpty then some digits else none
    let cs := cs.drop (fraction.elim 0 (·.length + 1))
    let signed := (cs.drop 1).head?.any fun c => c = '-' || c = '+'
    let power := (cs.drop (if signed then 2 else 1)).takeWhile isDigit
    let marked := cs.head?.any fun c => c = 'e' || c = 'E'
    let exponent :=
      if marked && !power.isEmpty then some (decide ((cs.drop 1).head? = some '-'), power) else none
    let width := (if negative then 1 else 0) + whole.length + fraction.elim 0 (·.length + 1) +
      exponent.elim 0 fun e => e.2.length + (if signed then 2 else 1)
    some (⟨negative, whole, fraction, exponent⟩, width)

/-- The value of a number: an integer unless it has a fraction or an exponent. -/
def Numeral.value (n : Numeral) : Except Stop Value :=
  match n.fraction, n.exponent with
  | none, none =>
    if n.whole.length > Text.digitLimit then .error .tooManyDigits
    else
      let m : Int := digitsValue n.whole
      .ok (.int (if n.negative then -m else m))
  | fraction, exponent =>
    let after := fraction.getD []
    let power : Int := exponent.elim 0 fun (negative, digits) =>
      if negative then -(digitsValue digits : Int) else digitsValue digits
    let x := Binary64.ofDecimal (digitsValue (n.whole ++ after)) (power - after.length)
    .ok (.scalar (.float (if n.negative then x.negate else x)))

/-- Words that are values. -/
def words : List (String × Scalar) :=
  [("null", .null), ("true", .bool true), ("false", .bool false), ("NaN", .float Binary64.nan),
    ("Infinity", .float Binary64.infinity), ("-Infinity", .float Binary64.infinity.negate)]

/-- Reads a value without parts. -/
def Cursor.readScalar (c : Cursor) : Except Stop (Value × Cursor) :=
  match words.find? fun w => Text.startsWith c.rest w.1.toList with
  | some (word, s) => .ok (.scalar s, c.skip word.length)
  | none =>
    match numeral? c.rest with
    | none => .error (.problem .expectedValue c.position)
    | some (n, width) =>
      match n.value with
      | .error stop => .error stop
      | .ok v => .ok (v, c.skip width)

mutual

/-- Reads a value at the cursor. -/
def readValue : Nat → Cursor → Except Stop (Value × Cursor)
  | 0, c => .error (.problem .expectedValue c.position)
  | fuel + 1, c =>
    match c.rest with
    | '"' :: _ =>
      match (c.skip 1).readText fuel with
      | .error stop => .error stop
      | .ok (s, c) => .ok (.str s, c)
    | '{' :: _ =>
      let inner := (c.skip 1).skipSpace
      let inner := { inner with origin := inner.origin + 1 }
      if inner.rest.head? = some '}' then .ok (.map c.origin [], inner.skip 1)
      else readEntries fuel c.origin [] inner
    | '[' :: _ =>
      let inner := (c.skip 1).skipSpace
      if inner.rest.head? = some ']' then .ok (.seq [], inner.skip 1)
      else readItems fuel [] inner
    | _ => c.readScalar

/-- Reads the entries of an object from a name on, up to its closing brace. -/
def readEntries : Nat → Nat → Value.Entries → Cursor → Except Stop (Value × Cursor)
  | 0, _, _, c => .error (.problem .expectedName c.position)
  | fuel + 1, origin, entries, c =>
    if c.rest.head? ≠ some '"' then .error (.problem .expectedName c.position)
    else match (c.skip 1).readText fuel with
      | .error stop => .error stop
      | .ok (name, c) =>
        let c := c.skipSpace
        if c.rest.head? ≠ some ':' then .error (.problem .expectedColon c.position)
        else match readValue fuel (c.skip 1).skipSpace with
          | .error stop => .error stop
          | .ok (v, c) =>
            let entries := Value.insert (.str name) v entries
            let c := c.skipSpace
            if c.rest.head? = some '}' then .ok (.map origin entries, c.skip 1)
            else if c.rest.head? = some ',' then
              readEntries fuel origin entries (c.skip 1).skipSpace
            else .error (.problem .expectedComma c.position)

/-- Reads the items of a list from a value on, up to its closing bracket.  `read` holds the
items so far, last one first. -/
def readItems : Nat → List Value → Cursor → Except Stop (Value × Cursor)
  | 0, _, c => .error (.problem .expectedValue c.position)
  | fuel + 1, read, c =>
    match readValue fuel c with
    | .error stop => .error stop
    | .ok (v, c) =>
      let c := c.skipSpace
      if c.rest.head? = some ']' then .ok (.seq (v :: read).reverse, c.skip 1)
      else if c.rest.head? = some ',' then readItems fuel (v :: read) (c.skip 1).skipSpace
      else .error (.problem .expectedComma c.position)

end

/-- Reads a whole text, giving its objects origins from a number on.  The result comes with
the next free origin. -/
def readFrom (origin : Nat) (cs : List Char) : Except Stop (Value × Nat) :=
  if cs.head? = some '\ufeff' then .error (.problem .byteOrderMark 0)
  else match readValue (2 * cs.length + 2) (Cursor.skipSpace ⟨cs, 0, origin⟩) with
    | .error stop => .error stop
    | .ok (v, c) =>
      let c := c.skipSpace
      if c.rest.isEmpty then .ok (v, c.origin) else .error (.problem .extraData c.position)

/-- Why a text has no JSON value, with the place worked out. -/
inductive ReadDefect where
  | malformed (defect : Defect)
  | tooManyDigits
  deriving DecidableEq, Repr

/-- The JSON value of a text. -/
def read (s : String) : Except ReadDefect Value :=
  match readFrom 0 s.toList with
  | .ok (v, _) => .ok v
  | .error (.problem p position) => .error (.malformed (Defect.at p s.toList position))
  | .error .tooManyDigits => .error .tooManyDigits

end OpenApiClient.Json
