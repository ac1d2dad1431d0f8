import OpenApiClient.Text.Digit
import OpenApiClient.Text.Utf8
import OpenApiClient.Yaml.Flow

/-!
# Anchors, tags and directives

What may stand before a node or before a document.  A tag is written with a handle, which a
directive may define, or verbatim between angle brackets.
-/

namespace OpenApiClient.Yaml

/-- A tag as written: handle and suffix, or the whole tag. -/
structure WrittenTag where
  handle : Option String
  suffix : String
  deriving DecidableEq, Repr

/-- Lines before a document that start with a percent sign. -/
inductive Directive where
  | version (major : Nat)
  | tag (handle start : String)
  | other
  deriving DecidableEq, Repr

/-- Reads the name of an anchor or an alias after its sign. -/
def anchorName (c : Cursor) : Except Stop (String × Cursor) :=
  let (name, c) := c.next.takeWhile isNameChar
  let x := c.peek
  let ends := isGap x || x = '?' || x = ':' || x = ',' || x = ']' || x = '\x7d' || x = '%' ||
    x = '@' || x = '\u0060'
  if name.isEmpty || !ends then .error .malformed else .ok (String.ofList name, c)

/-- Characters of tags that stand for themselves. -/
def isTagChar (c : Char) : Bool :=
  isNameChar c || [';', '/', '?', ':', '@', '&', '=', '+', '$', ',', '.', '!', '~', '*', '\'',
    '(', ')', '[', ']'].contains c

/-- Reads a row of bytes written with percent signs. -/
def percentBytes : Nat → List UInt8 → Cursor → Except Stop (List UInt8 × Cursor)
  | 0, _, _ => .error .malformed
  | fuel + 1, bytes, c =>
    if c.peek = '%' then
      match (c.next.rest.take 2).mapM Text.hexValue? with
      | some [a, b] => percentBytes fuel (UInt8.ofNat (16 * a + b) :: bytes) (c.advance 3)
      | _ => .error .malformed
    else .ok (bytes.reverse, c)

/-- Reads the characters of a tag.  `read` holds the ones so far, last one first. -/
def tagChars (limit : Nat) : Nat → List Char → Cursor → Except Stop (String × Cursor)
  | 0, _, _ => .error .malformed
  | fuel + 1, read, c =>
    let (run, c) := c.takeWhile isTagChar
    let read := run.reverse ++ read
    if c.peek = '%' then
      match percentBytes limit [] c with
      | .error stop => .error stop
      | .ok (bytes, c) =>
        match Text.decodeUtf8 bytes with
        | .error _ => .error .malformed
        | .ok s => tagChars limit fuel (s.toList.reverse ++ read) c
    else .ok (String.ofList read.reverse, c)

/-- Reads the characters of a tag, at least one. -/
def tagText (limit : Nat) (c : Cursor) : Except Stop (String × Cursor) :=
  if isTagChar c.peek || c.peek = '%' then tagChars limit limit [] c else .error .malformed

/-- Reads a tag handle: an exclamation mark, or a name between two of them. -/
def tagHandle (c : Cursor) : Except Stop (String × Cursor) :=
  if c.peek ≠ '!' then .error .malformed
  else
    let (name, after) := c.next.takeWhile isNameChar
    if c.ahead 1 = ' ' then .ok ("!", c.next)
    else if after.peek = '!' then
      .ok (String.ofList ('!' :: name ++ ['!']), after.next)
    else .error .malformed

/-- Whether another exclamation mark stands in the word ahead. -/
def hasHandle : List Char → Bool
  | [] => false
  | x :: rest => if isSpaceOrEnd x then false else x = '!' || hasHandle rest

/-- Reads a tag from its exclamation mark on. -/
def writtenTag (limit : Nat) (c : Cursor) : Except Stop (WrittenTag × Cursor) := do
  let x := c.ahead 1
  let (tag, c) ←
    (if x = '<' then do
      let (suffix, c) ← tagText limit (c.advance 2)
      if c.peek = '>' then return (⟨none, suffix⟩, c.next) else throw .malformed
    else if isGap x then return (⟨none, "!"⟩, c.next)
    else do
      let (handle, c) ←
        (if hasHandle c.next.rest then tagHandle c else return ("!", c.next))
      let (suffix, c) ← tagText limit c
      return (⟨some handle, suffix⟩, c)
    : Except Stop (WrittenTag × Cursor))
  if isSpaceOrEnd c.peek then return (tag, c) else throw .malformed

/-- Reads a number of a version. -/
def versionNumber (c : Cursor) : Except Stop (Nat × Cursor) :=
  let (digits, c) := c.takeWhile fun x => '0' ≤ x && x ≤ '9'
  if digits.isEmpty then .error .malformed
  else match Text.decimal? digits with
    | some n => .ok (n, c)
    | none => .error (.refused .notANumber)

/-- Reads a directive from its percent sign on, with the end of its line. -/
def directive (limit : Nat) (c : Cursor) : Except Stop (Directive × Cursor) := do
  let (name, c) := c.next.takeWhile isNameChar
  if name.isEmpty || !isSpaceOrEnd c.peek then throw .malformed
  let (d, c) ←
    (if name = ['Y', 'A', 'M', 'L'] then do
      let (major, c) ← versionNumber c.skipSpaces
      if c.peek ≠ '.' then throw .malformed
      let (_, c) ← versionNumber c.next
      if isSpaceOrEnd c.peek then return (.version major, c) else throw .malformed
    else if name = ['T', 'A', 'G'] then do
      let (handle, c) ← tagHandle c.skipSpaces
      if c.peek ≠ ' ' then throw .malformed
      let (start, c) ← tagText limit c.skipSpaces
      if isSpaceOrEnd c.peek then return (.tag handle start, c) else throw .malformed
    else return (.other, c.skipWhile (!isBreak ·))
    : Except Stop (Directive × Cursor))
  return (d, ← c.endLine)

end OpenApiClient.Yaml
