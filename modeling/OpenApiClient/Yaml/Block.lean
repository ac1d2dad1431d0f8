import OpenApiClient.Yaml.Cursor

/-!
# Block scalars

Texts that are set off by their indentation.  The header tells how line ends at the end are
kept and may fix the indentation.  In folded style a single line end between two lines that
start with neither blank nor tab becomes a blank.
-/

namespace OpenApiClient.Yaml

/-- What becomes of line ends at the end of a block scalar. -/
inductive Chomping where
  | strip
  | clip
  | keep
  deriving DecidableEq, Repr

/-- What the header of a block scalar says. -/
structure BlockHeader where
  chomping : Chomping
  increment : Option Nat
  deriving DecidableEq, Repr

/-- Reads a sign that fixes the chomping. -/
def chompingSign? (c : Char) : Option Chomping :=
  if c = '+' then some .keep else if c = '-' then some .strip else none

/-- Reads a digit that fixes the indentation; zero is malformed. -/
def increment? (c : Char) : Except Stop (Option Nat) :=
  if '1' ≤ c && c ≤ '9' then .ok (some (c.toNat - 48))
  else if c = '0' then .error .malformed
  else .ok none

/-- Reads the header of a block scalar, a sign and a digit in either order. -/
def blockHeader (c : Cursor) : Except Stop (BlockHeader × Cursor) := do
  let (header, c) ← (do
    match chompingSign? c.peek with
    | some chomping =>
      let c := c.next
      match ← increment? c.peek with
      | some n => return (⟨chomping, some n⟩, c.next)
      | none => return (⟨chomping, none⟩, c)
    | none =>
      match ← increment? c.peek with
      | none => return (⟨.clip, none⟩, c)
      | some n =>
        let c := c.next
        match chompingSign? c.peek with
        | some chomping => return (⟨chomping, some n⟩, c.next)
        | none => return (⟨.clip, some n⟩, c)
    : Except Stop (BlockHeader × Cursor))
  if isSpaceOrEnd c.peek then return (header, c) else throw .malformed

/-- Moves over empty lines ahead and gives their ends, together with the greatest column
reached by blanks. -/
def blankLines : Nat → List Char → Nat → Cursor → List Char × Nat × Cursor
  | 0, breaks, widest, c => (breaks.reverse, widest, c)
  | fuel + 1, breaks, widest, c =>
    if c.peek = ' ' then
      let c := c.next
      blankLines fuel breaks (max widest c.column) c
    else match c.lineBreak with
      | (some b, c) => blankLines fuel (b :: breaks) widest c
      | (none, c) => (breaks.reverse, widest, c)

/-- Moves over blanks up to a column. -/
def indentTo (indent : Nat) (c : Cursor) : Cursor :=
  c.advance (min (indent - c.column) (c.rest.takeWhile (· = ' ')).length)

/-- Moves over the line ends ahead and the indentation after each. -/
def indentedBreaks (indent : Nat) : Nat → List Char → Cursor → List Char × Cursor
  | 0, breaks, c => (breaks.reverse, c)
  | fuel + 1, breaks, c =>
    let c := indentTo indent c
    match c.lineBreak with
    | (some b, c) => indentedBreaks indent fuel (b :: breaks) c
    | (none, c) => (breaks.reverse, c)

/-- Blanks and tabs. -/
def isWhite (c : Char) : Bool := c = ' ' || c = '\t'

/-- Reads the lines of a block scalar.  `read` holds the text so far, last character first;
`breaks` are the line ends of empty lines before the cursor. -/
def blockLines (limit indent : Nat) (folded : Bool) :
    Nat → List Char → List Char → Cursor → List Char × Option Char × List Char × Cursor
  | 0, read, breaks, c => (read, none, breaks, c)
  | fuel + 1, read, breaks, c =>
    let plainStart := !isWhite c.peek
    let (line, c) := c.takeWhile (!isBreak ·)
    let read := line.reverse ++ breaks.reverse ++ read
    let (lineEnd, c) := c.lineBreak
    let (breaks, c) := indentedBreaks indent limit [] c
    if c.column = indent && c.peek ≠ endMark then
      let joined := folded && lineEnd = some '\n' && plainStart && !isWhite c.peek
      let read :=
        if joined then (if breaks.isEmpty then ' ' :: read else read)
        else lineEnd.toList ++ read
      blockLines limit indent folded fuel read breaks c
    else (read, lineEnd, breaks, c)

/-- Reads a block scalar whose indicator was passed, inside a block of some indentation. -/
def blockScalar (limit : Nat) (parent : Int) (folded : Bool) (c : Cursor) :
    Except Stop (String × Cursor) := do
  let (header, c) ← blockHeader c
  let c ← c.endLine
  let least := (max (parent + 1) 1).toNat
  let (indent, breaks, c) :=
    match header.increment with
    | none =>
      let (breaks, widest, c) := blankLines limit [] 0 c
      (max least widest, breaks, c)
    | some n =>
      let indent := least + n - 1
      let (breaks, c) := indentedBreaks indent limit [] c
      (indent, breaks, c)
  let (read, lineEnd, breaks, c) :=
    if c.column = indent && c.peek ≠ endMark then
      blockLines limit indent folded limit [] breaks c
    else ([], none, breaks, c)
  let tail :=
    match header.chomping with
    | .strip => []
    | .clip => lineEnd.toList
    | .keep => lineEnd.toList ++ breaks
  return (String.ofList (read.reverse ++ tail), c)

end OpenApiClient.Yaml
