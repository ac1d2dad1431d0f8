import OpenApiClient.Text.Basic

/-!
# Tags

The kinds of YAML nodes, and the kind that a bare scalar has by its form: a word for a truth
value or for nothing, a number, a date, or else a text.  Numbers may hold underscores and may
be written to base 2, 8, 16 or, with colons, 60; a fraction needs a point, and an exponent
its sign.
-/

namespace OpenApiClient.Yaml

/-- Kinds of nodes. -/
inductive Tag where
  | null
  | bool
  | int
  | float
  | timestamp
  | binary
  | str
  | seq
  | map
  | set
  | omap
  | pairs
  | merge
  | value
  | other
  deriving DecidableEq, Repr

namespace Tag

/-- What the full names of the known tags begin with. -/
def namespaceText : String := "tag:yaml.org,2002:"

/-- Known tags by the end of their full names. -/
def known : List (String × Tag) :=
  [("null", .null), ("bool", .bool), ("int", .int), ("float", .float),
    ("timestamp", .timestamp), ("binary", .binary), ("str", .str), ("seq", .seq),
    ("map", .map), ("set", .set), ("omap", .omap), ("pairs", .pairs), ("merge", .merge),
    ("value", .value)]

/-- The tag with a full name. -/
def ofName (name : String) : Tag :=
  ((known.find? fun k => namespaceText ++ k.1 == name).map (·.2)).getD .other

end Tag

/-! ### Forms of bare scalars -/

/-- Digits from zero to a greatest one. -/
def isDigitTo (top : Char) (c : Char) : Bool := '0' ≤ c && c ≤ top

/-- Digits and underscores. -/
def isSpaced (top : Char) (c : Char) : Bool := isDigitTo top c || c = '_'

/-- Drops a sign. -/
def dropSign : List Char → List Char
  | '-' :: cs => cs
  | '+' :: cs => cs
  | cs => cs

/-- Whether a text starts with a digit and goes on with digits and underscores. -/
def isCount (first : Char → Bool) : List Char → Bool
  | [] => false
  | c :: rest => first c && rest.all (isSpaced '9')

/-- Whether a text is one or two digits below 60. -/
def isSixtieth : List Char → Bool
  | [a] => isDigitTo '9' a
  | [a, b] => isDigitTo '5' a && isDigitTo '9' b
  | _ => false

/-- Whether a text is an integer. -/
def isInteger (cs : List Char) : Bool :=
  match dropSign cs with
  | '0' :: 'b' :: rest => !rest.isEmpty && rest.all (isSpaced '1')
  | '0' :: 'x' :: rest =>
    !rest.isEmpty && rest.all fun c => (Text.hexValue? c).isSome || c = '_'
  | '0' :: rest => rest.all (isSpaced '7')
  | cs =>
    let nonZero (c : Char) : Bool := '1' ≤ c && c ≤ '9'
    match Text.pieces ':' cs with
    | [] => false
    | [whole] => isCount nonZero whole
    | whole :: parts => isCount nonZero whole && parts.all isSixtieth

/-- Whether a text is empty or an exponent with its sign. -/
def isExponent : List Char → Bool
  | [] => true
  | e :: sign :: digits =>
    (e = 'e' || e = 'E') && (sign = '-' || sign = '+') && !digits.isEmpty &&
      digits.all (isDigitTo '9')
  | _ => false

/-- Whether a text is a number with a point, an infinity or the undefined number. -/
def isFraction (cs : List Char) : Bool :=
  let unsigned := dropSign cs
  let word := String.ofList unsigned
  if [".inf", ".Inf", ".INF"].contains word then true
  else if [".nan", ".NaN", ".NAN"].contains (String.ofList cs) then true
  else
    let whole := unsigned.takeWhile (· != '.')
    match unsigned.drop whole.length with
    | [] => false
    | _ :: after =>
      let tail := after.dropWhile (isSpaced '9')
      match Text.pieces ':' whole with
      | [] => false
      | [digits] =>
        if digits.isEmpty then
          -- without whole digits there is no sign and at least one digit after the point
          unsigned.length = cs.length && after.head?.any (isDigitTo '9') && isExponent tail
        else isCount (isDigitTo '9') digits && isExponent tail
      | digits :: parts =>
        isCount (isDigitTo '9') digits && parts.all isSixtieth && tail.isEmpty

/-- Splits so many digits off a text: the least and the greatest number of them. -/
def takeDigits? (least most : Nat) (cs : List Char) : Option (List Char × List Char) :=
  let digits := (cs.take most).takeWhile (isDigitTo '9')
  if least ≤ digits.length then some (digits, cs.drop digits.length) else none

/-- Drops a character that must stand at the start. -/
def expect? (c : Char) : List Char → Option (List Char)
  | [] => none
  | x :: rest => if x = c then some rest else none

/-- The parts of a date or a point in time, as texts. -/
structure Stamp where
  year : List Char
  month : List Char
  day : List Char
  time : Option (List Char × List Char × List Char)
  fraction : List Char
  zone : Option (List Char)
  deriving Repr

/-- Whether a text is `Z` or a distance from universal time. -/
def isZone : List Char → Bool
  | ['Z'] => true
  | sign :: rest =>
    (sign = '-' || sign = '+') &&
      match takeDigits? 1 2 rest with
      | none => false
      | some (_, []) => true
      | some (_, ':' :: minutes) => (takeDigits? 2 2 minutes).any (·.2.isEmpty)
      | some _ => false
  | [] => false

/-- The parts of a text that has the shape of a date or a point in time.  Month and day have
one or two digits. -/
def stamp? (cs : List Char) : Option Stamp := do
  let (year, cs) ← takeDigits? 4 4 cs
  let cs ← expect? '-' cs
  let (month, cs) ← takeDigits? 1 2 cs
  let cs ← expect? '-' cs
  let (day, cs) ← takeDigits? 1 2 cs
  match cs with
  | [] => return ⟨year, month, day, none, [], none⟩
  | c :: rest =>
    let isWhite (x : Char) : Bool := x = ' ' || x = '\t'
    guard (c = 'T' || c = 't' || isWhite c)
    let cs := if isWhite c then rest.dropWhile isWhite else rest
    let (hour, cs) ← takeDigits? 1 2 cs
    let cs ← expect? ':' cs
    let (minute, cs) ← takeDigits? 2 2 cs
    let cs ← expect? ':' cs
    let (second, cs) ← takeDigits? 2 2 cs
    let (fraction, cs) := match cs with
      | '.' :: rest => (rest.takeWhile (isDigitTo '9'), rest.dropWhile (isDigitTo '9'))
      | cs => ([], cs)
    let time := some (hour, minute, second)
    let zone := cs.dropWhile isWhite
    if cs.isEmpty then return ⟨year, month, day, time, fraction, none⟩
    guard (isZone zone)
    return ⟨year, month, day, time, fraction, some zone⟩

/-- Whether a bare text is a date or a point in time.  A day without a time has two digits
for month and day. -/
def isStamp (cs : List Char) : Bool :=
  (stamp? cs).any fun s => s.time.isSome || (s.month.length = 2 && s.day.length = 2)

/-- Words for truth values, in the three spellings of each. -/
def booleanWords : List (String × Bool) :=
  [("yes", true), ("Yes", true), ("YES", true), ("no", false), ("No", false), ("NO", false),
    ("true", true), ("True", true), ("TRUE", true), ("false", false), ("False", false),
    ("FALSE", false), ("on", true), ("On", true), ("ON", true), ("off", false),
    ("Off", false), ("OFF", false)]

/-- The tag of a bare scalar by its form. -/
def bareTag (s : String) : Tag :=
  let cs := s.toList
  if ["", "~", "null", "Null", "NULL"].contains s then .null
  else if (booleanWords.lookup s).isSome then .bool
  else if isFraction cs then .float
  else if isInteger cs then .int
  else if s = "<<" then .merge
  else if isStamp cs then .timestamp
  else if s = "=" then .value
  else .str

end OpenApiClient.Yaml
