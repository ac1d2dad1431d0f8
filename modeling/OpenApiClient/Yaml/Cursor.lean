import OpenApiClient.Fault
import OpenApiClient.Text.Basic

/-!
# Moving through a YAML text

A cursor knows what is left of the text and the line and column it stands in.  Past the end
of the text it shows a mark that no text may hold.
-/

namespace OpenApiClient.Yaml

/-- Why reading stopped: the text is no YAML, or a value was refused. -/
inductive Stop where
  | malformed
  | refused (refusal : Refusal)
  deriving DecidableEq, Repr

/-- A place in a text. -/
structure Cursor where
  rest : List Char
  index : Nat := 0
  line : Nat := 0
  column : Nat := 0
  deriving Repr, Inhabited

/-- Stands for the end of the text. -/
def endMark : Char := '\x00'

/-- Characters that end a line. -/
def isBreak (c : Char) : Bool :=
  c = '\n' || c = '\r' || c = '\u0085' || c = '\u2028' || c = '\u2029'

/-- The end of a line or of the text. -/
def isBreakOrEnd (c : Char) : Bool := c = endMark || isBreak c

/-- A blank, or the end of a line or of the text. -/
def isSpaceOrEnd (c : Char) : Bool := c = ' ' || isBreakOrEnd c

/-- A blank, a tab, or the end of a line or of the text. -/
def isGap (c : Char) : Bool := c = '\t' || isSpaceOrEnd c

/-- Characters that a YAML text may hold. -/
def isAllowed (c : Char) : Bool :=
  let n := c.toNat
  n = 9 || n = 10 || n = 13 || (0x20 ≤ n && n ≤ 0x7e) || n = 0x85 || (0xa0 ≤ n && n ≤ 0xd7ff) ||
  (0xe000 ≤ n && n ≤ 0xfffd) || 0x10000 ≤ n

/-- Characters of names of anchors, directives and tag handles. -/
def isNameChar (c : Char) : Bool :=
  ('0' ≤ c && c ≤ '9') || ('A' ≤ c && c ≤ 'Z') || ('a' ≤ c && c ≤ 'z') || c = '-' || c = '_'

namespace Cursor

/-- The character so many places ahead. -/
def ahead (c : Cursor) (n : Nat) : Char := (c.rest.drop n).headD endMark

/-- The character at the cursor. -/
def peek (c : Cursor) : Char := c.rest.headD endMark

/-- Moves over one character.  A byte order mark takes no column. -/
def next (c : Cursor) : Cursor :=
  match c.rest with
  | [] => c
  | x :: rest =>
    if isBreak x && !(x = '\r' && rest.head? = some '\n') then
      { rest, index := c.index + 1, line := c.line + 1, column := 0 }
    else
      { c with rest, index := c.index + 1, column := c.column + if x = '\ufeff' then 0 else 1 }

/-- Moves over some characters. -/
def advance : Nat → Cursor → Cursor
  | 0, c => c
  | n + 1, c => advance n c.next

/-- Moves over the characters of a class that stand ahead, and gives them. -/
def takeWhile (p : Char → Bool) (c : Cursor) : List Char × Cursor :=
  let taken := c.rest.takeWhile p
  (taken, c.advance taken.length)

/-- Moves over the characters of a class. -/
def skipWhile (p : Char → Bool) (c : Cursor) : Cursor := (c.takeWhile p).2

/-- Moves over blanks. -/
def skipSpaces (c : Cursor) : Cursor := c.skipWhile (· = ' ')

/-- Moves to the end of the line if a comment starts here. -/
def skipComment (c : Cursor) : Cursor :=
  if c.peek = '#' then c.skipWhile (!isBreak ·) else c

/-- Moves over a line end and gives the character it stands for: none if there is no line
end here, a line feed for the ends that are written in several ways. -/
def lineBreak (c : Cursor) : Option Char × Cursor :=
  let x := c.peek
  if x = '\r' && c.ahead 1 = '\n' then (some '\n', c.advance 2)
  else if x = '\r' || x = '\n' || x = '\u0085' then (some '\n', c.next)
  else if x = '\u2028' || x = '\u2029' then (some x, c.next)
  else (none, c)

/-- Whether a line of three dashes or three points stands ahead. -/
def atDocumentMark (c : Cursor) : Bool :=
  (c.rest.take 3 = ['-', '-', '-'] || c.rest.take 3 = ['.', '.', '.']) && isGap (c.ahead 3)

/-- Moves to the next line if nothing but blanks and a comment stand before it. -/
def endLine (c : Cursor) : Except Stop Cursor :=
  let c := c.skipSpaces.skipComment
  if isBreakOrEnd c.peek then .ok c.lineBreak.2 else .error .malformed

end Cursor

end OpenApiClient.Yaml
