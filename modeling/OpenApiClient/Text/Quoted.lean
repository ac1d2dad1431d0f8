import OpenApiClient.Text.Basic
import OpenApiClient.Text.Printable

/-!
# Quoted text in messages

How a text is shown inside a list or a mapping: between quotes, single ones unless the text
holds a single quote and no double one, with escapes for the quote, the backslash and
whatever is not printable.
-/

namespace OpenApiClient.Text

/-- The quote around a text. -/
def quoteFor (cs : List Char) : Char :=
  if cs.contains '\'' && !cs.contains '"' then '"' else '\''

/-- One character between the given quotes. -/
def escapeIn (quote c : Char) : List Char :=
  if c = quote || c = '\\' then ['\\', c]
  else if c = '\n' then ['\\', 'n']
  else if c = '\r' then ['\\', 'r']
  else if c = '\t' then ['\\', 't']
  else if isPrintable c then [c]
  else if c.toNat < 0x100 then '\\' :: 'x' :: hex 2 c.toNat
  else if c.toNat < 0x10000 then '\\' :: 'u' :: hex 4 c.toNat
  else '\\' :: 'U' :: hex 8 c.toNat

/-- The text between quotes. -/
def quoted (s : String) : String :=
  let cs := s.toList
  let q := quoteFor cs
  String.ofList (q :: cs.flatMap (escapeIn q) ++ [q])

/-- One byte between the given quotes. -/
def escapeByte (quote : Char) (b : UInt8) : List Char :=
  let c := Char.ofNat b.toNat
  if b.toNat < 128 then escapeIn quote c else '\\' :: 'x' :: hex 2 b.toNat

/-- A row of bytes between quotes, marked with a `b`. -/
def quotedBytes (bs : List UInt8) : String :=
  let cs := bs.map fun b => Char.ofNat b.toNat
  let q := quoteFor cs
  String.ofList ('b' :: q :: bs.flatMap (escapeByte q) ++ [q])

end OpenApiClient.Text
