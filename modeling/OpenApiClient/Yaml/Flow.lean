import OpenApiClient.Yaml.Block

/-!
# Quoted and plain scalars

Texts within a line, which may go on in further lines.  A single line end between two parts
becomes a blank, further ones are kept.  A line of dashes or points that separates documents
may not stand inside a quoted text and ends a plain one.
-/

namespace OpenApiClient.Yaml

/-- The character of an escape of one letter. -/
def escape? : Char → Option Char
  | '0' => some '\x00'
  | 'a' => some '\x07'
  | 'b' => some '\x08'
  | 't' => some '\t'
  | '\t' => some '\t'
  | 'n' => some '\n'
  | 'v' => some '\x0b'
  | 'f' => some '\x0c'
  | 'r' => some '\r'
  | 'e' => some '\x1b'
  | ' ' => some ' '
  | '"' => some '"'
  | '\\' => some '\\'
  | '/' => some '/'
  | 'N' => some '\u0085'
  | '_' => some '\u00a0'
  | 'L' => some '\u2028'
  | 'P' => some '\u2029'
  | _ => none

/-- How many hexadecimal digits follow the letter of an escape. -/
def escapeWidth? : Char → Option Nat
  | 'x' => some 2
  | 'u' => some 4
  | 'U' => some 8
  | _ => none

/-- The number written by a row of hexadecimal digits. -/
def hexNumber? (cs : List Char) : Option Nat :=
  (cs.mapM Text.hexValue?).map fun ds => ds.foldl (fun n d => 16 * n + d) 0

/-- The second half of a character that is written as two surrogates, and the length of its
escape. -/
def lowSurrogate? : List Char → Option (Nat × Nat)
  | '\\' :: letter :: rest => do
    let width ← escapeWidth? letter
    let n ← if (rest.take width).length = width then hexNumber? (rest.take width) else none
    if 0xdc00 ≤ n && n < 0xe000 then some (n, width + 2) else none
  | _ => none

/-- Reads the digits of an escape.  A number beyond the last code point is refused.  Two
surrogates that belong together are one character; any other surrogate becomes the
replacement character. -/
def hexEscape (width : Nat) (c : Cursor) : Except Stop (Char × Cursor) :=
  let digits := c.rest.take width
  match (if digits.length = width then hexNumber? digits else none) with
  | none => .error .malformed
  | some n =>
    let c := c.advance width
    if 0x80000000 ≤ n then .error (.refused .tooLarge)
    else if 0x110000 ≤ n then .error (.refused .notACharacter)
    else if 0xd800 ≤ n && n < 0xe000 then
      match if n < 0xdc00 then lowSurrogate? c.rest else none with
      | some (low, length) =>
        .ok (Char.ofNat (0x10000 + (n - 0xd800) * 0x400 + (low - 0xdc00)), c.advance length)
      | none => .ok ('\ufffd', c)
    else .ok (Char.ofNat n, c)

/-- Moves over the line ends ahead and the white space after each, inside a quoted text. -/
def quotedBreaks : Nat → List Char → Cursor → Except Stop (List Char × Cursor)
  | 0, _, _ => .error .malformed
  | fuel + 1, breaks, c =>
    if c.atDocumentMark then .error .malformed
    else
      let c := c.skipWhile isWhite
      match c.lineBreak with
      | (some b, c) => quotedBreaks fuel (b :: breaks) c
      | (none, c) => .ok (breaks.reverse, c)

/-- What a line end and the line ends after it become. -/
def foldBreaks (first : Char) (more : List Char) : List Char :=
  if first ≠ '\n' then first :: more
  else if more.isEmpty then [' ']
  else more

/-- Reads a quoted text up to its closing quote.  `read` holds the text so far, last
character first. -/
def quotedFrom (limit : Nat) (double : Bool) : Nat → List Char → Cursor →
    Except Stop (String × Cursor)
  | 0, _, _ => .error .malformed
  | fuel + 1, read, c =>
    let x := c.peek
    if isWhite x || isBreak x then
      let (white, c) := c.takeWhile isWhite
      match c.lineBreak with
      | (some b, c) =>
        match quotedBreaks limit [] c with
        | .error stop => .error stop
        | .ok (more, c) => quotedFrom limit double fuel ((foldBreaks b more).reverse ++ read) c
      | (none, c) =>
        if c.rest.isEmpty then .error .malformed
        else quotedFrom limit double fuel (white.reverse ++ read) c
    else if c.rest.isEmpty then .error .malformed
    else if double then
      if x = '"' then .ok (String.ofList read.reverse, c.next)
      else if x = '\\' then
        let c := c.next
        let e := c.peek
        match escape? e, escapeWidth? e with
        | some y, _ => quotedFrom limit double fuel (y :: read) c.next
        | none, some width =>
          match hexEscape width c.next with
          | .error stop => .error stop
          | .ok (y, c) => quotedFrom limit double fuel (y :: read) c
        | none, none =>
          match c.lineBreak with
          | (some _, c) =>
            match quotedBreaks limit [] c with
            | .error stop => .error stop
            | .ok (more, c) => quotedFrom limit double fuel (more.reverse ++ read) c
          | (none, _) => .error .malformed
      else quotedFrom limit double fuel (x :: read) c.next
    else if x = '\'' then
      if c.ahead 1 = '\'' then quotedFrom limit double fuel ('\'' :: read) (c.advance 2)
      else .ok (String.ofList read.reverse, c.next)
    else quotedFrom limit double fuel (x :: read) c.next

/-- Reads a quoted text from its opening quote on. -/
def quotedScalar (limit : Nat) (c : Cursor) : Except Stop (String × Cursor) :=
  quotedFrom limit (c.peek = '"') limit [] c.next

/-- Characters that end a plain text inside brackets. -/
def isFlowIndicator (c : Char) : Bool :=
  c = ',' || c = '[' || c = ']' || c = '\x7b' || c = '\x7d'

/-- Whether a plain text ends at a character, given the one after it. -/
def endsPlain (inFlow : Bool) (x after : Char) : Bool :=
  isGap x || (x = ':' && (isGap after || (inFlow && isFlowIndicator after))) ||
  (inFlow && (isFlowIndicator x || x = '?'))

/-- The part of a plain text ahead. -/
def plainRun (inFlow : Bool) : List Char → List Char
  | [] => []
  | x :: rest =>
    if endsPlain inFlow x (rest.headD endMark) then [] else x :: plainRun inFlow rest

/-- Moves over line ends and blanks inside a plain text; none if a document ends there. -/
def plainBreaks : Nat → List Char → Cursor → Option (List Char) × Cursor
  | 0, breaks, c => (some breaks.reverse, c)
  | fuel + 1, breaks, c =>
    if c.peek = ' ' then plainBreaks fuel breaks c.next
    else match c.lineBreak with
      | (some b, c) =>
        if c.atDocumentMark then (none, c) else plainBreaks fuel (b :: breaks) c
      | (none, c) => (some breaks.reverse, c)

/-- Reads what stands between two parts of a plain text: the characters it becomes, none if
the text ends here, and whether a line ended. -/
def plainGap (limit : Nat) (c : Cursor) : List Char × Bool × Cursor :=
  let (blanks, c) := c.takeWhile (· = ' ')
  match c.lineBreak with
  | (none, c) => (blanks, false, c)
  | (some b, c) =>
    if c.atDocumentMark then ([], true, c)
    else match plainBreaks limit [] c with
      | (none, c) => ([], true, c)
      | (some more, c) => (foldBreaks b more, true, c)

/-- Reads a plain text.  `read` holds the text so far, last character first, `gap` what
stands between it and the cursor, and `key` whether a key may follow. -/
def plainFrom (limit : Nat) (inFlow : Bool) (indent : Int) :
    Nat → List Char → List Char → Bool → Cursor → String × Bool × Cursor
  | 0, read, _, key, c => (String.ofList read.reverse, key, c)
  | fuel + 1, read, gap, key, c =>
    let run := if c.peek = '#' then [] else plainRun inFlow c.rest
    if run.isEmpty then (String.ofList read.reverse, key, c)
    else
      let read := run.reverse ++ gap.reverse ++ read
      let (gap, broke, c) := plainGap limit (c.advance run.length)
      if gap.isEmpty || c.peek = '#' || (!inFlow && c.column < indent) then
        (String.ofList read.reverse, broke, c)
      else plainFrom limit inFlow indent fuel read gap broke c

/-- Reads a plain text inside a block of some indentation.  The flag says whether a key may
follow, which is so after a line end. -/
def plainScalar (limit : Nat) (inFlow : Bool) (parent : Int) (c : Cursor) :
    String × Bool × Cursor :=
  plainFrom limit inFlow (parent + 1) limit [] [] false c

end OpenApiClient.Yaml
