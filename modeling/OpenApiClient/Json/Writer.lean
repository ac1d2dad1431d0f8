import OpenApiClient.Fault
import OpenApiClient.Value.Text

/-!
# Writing JSON

Values are written on several lines, each level two blanks further in; empty lists and
mappings stay on one line.  Only the quote, the backslash and control characters are
escaped.  What JSON has no form for is written as its text, except that such a value cannot
be a name.
-/

namespace OpenApiClient.Json

open Text Decimal

/-- One character inside a text. -/
def escapeChar (c : Char) : List Char :=
  if c = '"' then ['\\', '"']
  else if c = '\\' then ['\\', '\\']
  else if c = '\n' then ['\\', 'n']
  else if c = '\r' then ['\\', 'r']
  else if c = '\t' then ['\\', 't']
  else if c = '\x08' then ['\\', 'b']
  else if c = '\x0c' then ['\\', 'f']
  else if c.toNat < 32 then '\\' :: 'u' :: hex 4 c.toNat
  else [c]

/-- A text between quotes. -/
def writeText (s : String) : String :=
  String.ofList ('"' :: s.toList.flatMap escapeChar ++ ['"'])

/-- A floating-point number. -/
def writeFloat (x : Binary64) : String :=
  if x.isNaN then "NaN"
  else if x.isInfinite then (if x.isNegative then "-Infinity" else "Infinity")
  else x.text

/-- The name that stands for a key; keys without one refuse. -/
def keyName : Scalar → Except Fault String
  | .null => .ok "null"
  | .bool b => .ok (if b then "true" else "false")
  | .int n => .ok (toString n)
  | .float x => .ok (writeFloat x)
  | .str s => .ok s
  | _ => .error (.refused .notAKey)

/-- A value without parts. -/
def writeScalar : Scalar → String
  | .null => "null"
  | .bool b => if b then "true" else "false"
  | .int n => toString n
  | .float x => writeFloat x
  | .str s => writeText s
  | s => writeText s.text

/-- The start of a line at a level. -/
def newLine (level : Nat) : String :=
  String.ofList ('\n' :: List.replicate (2 * level) ' ')

/-- Parts between brackets, each on a line of its own one level further in. -/
def bracketed (level : Nat) (opening closing : String) (parts : List String) : String :=
  if parts.isEmpty then opening ++ closing
  else opening ++ newLine (level + 1) ++ join ("," ++ newLine (level + 1)) parts ++
    newLine level ++ closing

mutual

/-- A value at a level. -/
def writeAt (level : Nat) : Value → Except Fault String
  | .scalar s => .ok (writeScalar s)
  | .set ms => .ok (writeText (Value.set ms).text)
  | .pair a b => do
    return bracketed level "[" "]" [← writeAt (level + 1) a, ← writeAt (level + 1) b]
  | .seq items => do return bracketed level "[" "]" (← writeItems (level + 1) items)
  | .map _ es => do return bracketed level "\x7b" "\x7d" (← writeEntries (level + 1) es)

/-- The items of a list. -/
def writeItems (level : Nat) : List Value → Except Fault (List String)
  | [] => .ok []
  | v :: r => do return (← writeAt level v) :: (← writeItems level r)

/-- The entries of a mapping. -/
def writeEntries (level : Nat) : Value.Entries → Except Fault (List String)
  | [] => .ok []
  | (k, v) :: r => do
    let name ← keyName k
    let value ← writeAt level v
    return (writeText name ++ ": " ++ value) :: (← writeEntries level r)

end

/-- The JSON text of a value. -/
def write (v : Value) : Except Fault String := writeAt 0 v

end OpenApiClient.Json
