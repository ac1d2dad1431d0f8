import OpenApiClient.Text.Stretch

/-!
# Digits

Decimal digits of every script come in runs of ten that start at a zero.  Besides them there
are digits without positional value, such as superscripts and circled digits: they are
digits, but no number can be read from them.
-/

namespace OpenApiClient.Text

/-- The zeros of all scripts. -/
def zeros : List Nat := [
  0x30, 0x660, 0x6f0, 0x7c0, 0x966, 0x9e6, 0xa66, 0xae6, 0xb66, 0xbe6, 0xc66, 0xce6,
  0xd66, 0xde6, 0xe50, 0xed0, 0xf20, 0x1040, 0x1090, 0x17e0, 0x1810, 0x1946, 0x19d0,
  0x1a80, 0x1a90, 0x1b50, 0x1bb0, 0x1c40, 0x1c50, 0xa620, 0xa8d0, 0xa900, 0xa9d0, 0xa9f0,
  0xaa50, 0xabf0, 0xff10, 0x104a0, 0x10d30, 0x11066, 0x110f0, 0x11136, 0x111d0, 0x112f0,
  0x11450, 0x114d0, 0x11650, 0x116c0, 0x11730, 0x118e0, 0x11950, 0x11c50, 0x11d50,
  0x11da0, 0x16a60, 0x16ac0, 0x16b50, 0x1d7ce, 0x1d7d8, 0x1d7e2, 0x1d7ec, 0x1d7f6,
  0x1e140, 0x1e2f0, 0x1e950, 0x1fbf0]

/-- Digits that have no positional value. -/
def loneDigits : List Stretch := [
  ⟨0xb2, 0xb3, 1⟩, ⟨0xb9, 0xb9, 1⟩, ⟨0x1369, 0x1371, 1⟩, ⟨0x19da, 0x19da, 1⟩,
  ⟨0x2070, 0x2070, 1⟩, ⟨0x2074, 0x2079, 1⟩, ⟨0x2080, 0x2089, 1⟩, ⟨0x2460, 0x2468, 1⟩,
  ⟨0x2474, 0x247c, 1⟩, ⟨0x2488, 0x2490, 1⟩, ⟨0x24ea, 0x24ea, 1⟩, ⟨0x24f5, 0x24fd, 1⟩,
  ⟨0x24ff, 0x24ff, 1⟩, ⟨0x2776, 0x277e, 1⟩, ⟨0x2780, 0x2788, 1⟩, ⟨0x278a, 0x2792, 1⟩,
  ⟨0x10a40, 0x10a43, 1⟩, ⟨0x10e60, 0x10e68, 1⟩, ⟨0x11052, 0x1105a, 1⟩,
  ⟨0x1f100, 0x1f10a, 1⟩]

/-- The value of a decimal digit of any script. -/
def decimalValue? (c : Char) : Option Nat :=
  (zeros.find? fun z => z ≤ c.toNat && c.toNat < z + 10).map (c.toNat - ·)

/-- Whether a character is a digit, with or without positional value. -/
def isDigit (c : Char) : Bool :=
  (decimalValue? c).isSome || inStretches loneDigits c

/-- Whether a text is a non-empty row of digits. -/
def isDigits (s : String) : Bool :=
  !s.isEmpty && s.toList.all isDigit

/-- The most decimal digits a number may be written with. -/
def digitLimit : Nat := 4300

/-- The number written by a row of decimal digits of any script; none for an empty row, for a
digit without positional value and for a row beyond the limit. -/
def decimal? (cs : List Char) : Option Nat :=
  if cs.isEmpty || cs.length > digitLimit then none
  else (cs.mapM decimalValue?).map (·.foldl (fun n d => 10 * n + d) 0)

end OpenApiClient.Text
