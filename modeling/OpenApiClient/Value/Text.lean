import OpenApiClient.Text.Digit
import OpenApiClient.Text.Quoted
import OpenApiClient.Value.Basic

/-!
# The text of a value

How values appear in messages and wherever a text is made of a value.  A text stands for
itself; inside a collection it is quoted.  Dates outside collections are written in their
standard form.  Integers with too many digits are not written at all.
-/

namespace OpenApiClient

open Text Calendar

namespace Calendar

/-- The parts of a stretch of time that are not zero, by name. -/
private def timeParts (days seconds : Int) : String :=
  let parts :=
    (if days = 0 then [] else ["days=" ++ toString days]) ++
    (if seconds = 0 then [] else ["seconds=" ++ toString seconds])
  if parts.isEmpty then "0" else join ", " parts

/-- A distance from universal time inside a collection. -/
def offsetParts (o : Int) : String :=
  if o = 0 then "datetime.timezone.utc"
  else
    "datetime.timezone(datetime.timedelta(" ++
      timeParts (o.fdiv secondsPerDay) (o.fmod secondsPerDay) ++ "))"

/-- A day inside a collection. -/
def Date.parts (d : Date) : String :=
  "datetime.date(" ++ join ", " [toString d.year, toString d.month, toString d.day] ++ ")"

/-- A point in time inside a collection; seconds and microseconds are left out from the end
while they are zero. -/
def Moment.parts (m : Moment) : String :=
  let fine :=
    if m.micro ≠ 0 then [m.second, m.micro] else if m.second ≠ 0 then [m.second] else []
  let numbers := [m.date.year, m.date.month, m.date.day, m.hour, m.minute] ++ fine
  let offset := (m.offset.map fun o => ", tzinfo=" ++ offsetParts o).getD ""
  "datetime.datetime(" ++ join ", " (numbers.map toString) ++ offset ++ ")"

end Calendar

namespace Scalar

/-- A scalar inside a collection. -/
def shown : Scalar → String
  | .null => "None"
  | .bool true => "True"
  | .bool false => "False"
  | .int n => toString n
  | .float x => x.text
  | .str s => quoted s
  | .date d => d.parts
  | .moment m => m.parts
  | .bytes bs => quotedBytes bs

/-- A scalar by itself. -/
def text : Scalar → String
  | .str s => s
  | .date d => d.iso
  | .moment m => m.text " "
  | s => s.shown

/-- Whether a scalar has a text: only the digits of integers are limited. -/
def hasText : Scalar → Bool
  | .int n => n.natAbs < Nat.pow 10 digitLimit
  | _ => true

end Scalar

namespace Value

mutual

/-- A value inside a collection. -/
def shown : Value → String
  | .scalar s => s.shown
  | .set ms => if ms.isEmpty then "set()" else "\x7b" ++ join ", " (ms.map Scalar.shown) ++ "\x7d"
  | .pair a b => "(" ++ a.shown ++ ", " ++ b.shown ++ ")"
  | .seq items => "[" ++ join ", " (shownItems items) ++ "]"
  | .map _ es => "\x7b" ++ join ", " (shownEntries es) ++ "\x7d"

/-- The items of a list. -/
def shownItems : List Value → List String
  | [] => []
  | v :: r => v.shown :: shownItems r

/-- The entries of a mapping, keys before values. -/
def shownEntries : Entries → List String
  | [] => []
  | (k, v) :: r => (k.shown ++ ": " ++ v.shown) :: shownEntries r

end

/-- A value by itself. -/
def text : Value → String
  | .scalar s => s.text
  | v => v.shown

@[simp] theorem text_str (s : String) : (Value.str s).text = s := rfl

mutual

/-- Whether a value has a text, as all its parts have. -/
def hasText : Value → Bool
  | .scalar s => s.hasText
  | .set ms => ms.all Scalar.hasText
  | .pair a b => a.hasText && b.hasText
  | .seq items => haveText items
  | .map _ es => entriesHaveText es

/-- Whether all items have a text. -/
def haveText : List Value → Bool
  | [] => true
  | v :: r => v.hasText && haveText r

/-- Whether all keys and values of entries have a text. -/
def entriesHaveText : Entries → Bool
  | [] => true
  | (k, v) :: r => k.hasText && v.hasText && entriesHaveText r

end

/-- What the kind of a value is called. -/
def kindName : Value → String
  | .scalar .null => "NoneType"
  | .scalar (.bool _) => "bool"
  | .scalar (.int _) => "int"
  | .scalar (.float _) => "float"
  | .scalar (.str _) => "str"
  | .scalar (.date _) => "date"
  | .scalar (.moment _) => "datetime"
  | .scalar (.bytes _) => "bytes"
  | .set _ => "set"
  | .pair _ _ => "tuple"
  | .seq _ => "list"
  | .map _ _ => "dict"

end Value

end OpenApiClient
