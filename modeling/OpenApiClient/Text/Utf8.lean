import OpenApiClient.Text.Basic

/-!
# Reading UTF-8

Bytes are read as UTF-8 without repair: the first byte sequence that is no character ends
the reading.  The fault says where that sequence stands and what is wrong with it.
-/

namespace OpenApiClient.Text

/-- What is wrong with a byte sequence. -/
inductive Utf8Reason where
  | invalidStart
  | invalidContinuation
  | unexpectedEnd
  deriving DecidableEq, Repr

/-- A byte sequence that is no character: its first byte, where it stands, how many bytes it
covers, and why. -/
structure Utf8Fault where
  byte : UInt8
  position : Nat
  width : Nat
  reason : Utf8Reason
  deriving DecidableEq, Repr

/-- The wording of a reason. -/
def Utf8Reason.message : Utf8Reason → String
  | .invalidStart => "invalid start byte"
  | .invalidContinuation => "invalid continuation byte"
  | .unexpectedEnd => "unexpected end of data"

/-- The wording of a fault. -/
def Utf8Fault.message (f : Utf8Fault) : String :=
  let place :=
    if f.width = 1 then
      "byte 0x" ++ String.ofList (hex 2 f.byte.toNat) ++ " in position " ++ toString f.position
    else
      "bytes in position " ++ toString f.position ++ "-" ++
        toString (f.position + f.width - 1)
  "'utf-8' codec can't decode " ++ place ++ ": " ++ f.reason.message

/-- The bytes that may follow a first byte: how many, and the range of the first of them;
none if the byte starts no character.  The narrowed ranges leave out overlong forms,
surrogates and what lies beyond the last code point. -/
def continuation? (b : UInt8) : Option (Nat × Nat × Nat) :=
  let n := b.toNat
  if 0xc2 ≤ n && n ≤ 0xdf then some (1, 0x80, 0xbf)
  else if n = 0xe0 then some (2, 0xa0, 0xbf)
  else if n = 0xed then some (2, 0x80, 0x9f)
  else if 0xe1 ≤ n && n ≤ 0xef then some (2, 0x80, 0xbf)
  else if n = 0xf0 then some (3, 0x90, 0xbf)
  else if n = 0xf4 then some (3, 0x80, 0x8f)
  else if 0xf1 ≤ n && n ≤ 0xf3 then some (3, 0x80, 0xbf)
  else none

/-- The payload of the first byte of a sequence with so many bytes after it. -/
def leadBits (more : Nat) (b : UInt8) : Nat :=
  b.toNat % Nat.pow 2 (6 - more)

/-- Reads the bytes that follow a first byte: the value and how many were read, or the number
of good bytes before the fault. -/
def continuationBytes : Nat → Nat → Nat → Nat → Nat → List UInt8 →
    Except (Nat × Utf8Reason) Nat
  | 0, _, _, _, value, _ => .ok value
  | _ + 1, _, _, read, _, [] => .error (read, .unexpectedEnd)
  | more + 1, low, high, read, value, b :: rest =>
    if low ≤ b.toNat && b.toNat ≤ high then
      continuationBytes more 0x80 0xbf (read + 1) (value * 64 + b.toNat % 64) rest
    else .error (read, .invalidContinuation)

/-- Reads the characters from a position on.  `skip` counts the bytes that belong to the
character read last. -/
def decodeFrom : Nat → Nat → List UInt8 → Except Utf8Fault (List Char)
  | _, _, [] => .ok []
  | position, skip + 1, _ :: rest => decodeFrom (position + 1) skip rest
  | position, 0, b :: rest =>
    if b.toNat < 128 then
      (decodeFrom (position + 1) 0 rest).map (Char.ofNat b.toNat :: ·)
    else match continuation? b with
      | none => .error ⟨b, position, 1, .invalidStart⟩
      | some (more, low, high) =>
        match continuationBytes more low high 0 (leadBits more b) rest with
        | .error (read, reason) => .error ⟨b, position, read + 1, reason⟩
        | .ok value => (decodeFrom (position + 1) more rest).map (Char.ofNat value :: ·)

/-- The text of a row of bytes. -/
def decodeUtf8 (bytes : List UInt8) : Except Utf8Fault String :=
  (decodeFrom 0 0 bytes).map String.ofList

end OpenApiClient.Text
