import OpenApiClient.Yaml.Property

/-!
# Tokens of a YAML text

A text becomes a row of tokens in which indentation is made explicit: where a block begins
or ends, a token says so.  Whether something is a key is known only when the colon after it
is met, so the place of a possible key is remembered and the token that marks it is put in
later.  A possible key must end on the line on which it begins.

Nodes are made of tokens as far as these are known, so a defect of the nodes counts before
anything that is refused further on.  What is refused therefore ends the row of tokens with a
mark.
-/

namespace OpenApiClient.Yaml

/-- How a scalar is written: bare, or in quotes or as a block. -/
inductive Style where
  | plain
  | quoted
  deriving DecidableEq, Repr

/-- The tokens. -/
inductive Token where
  | directive (d : Directive)
  | documentStart
  | documentEnd
  | blockSequenceStart
  | blockMappingStart
  | blockEnd
  | flowSequenceStart
  | flowSequenceEnd
  | flowMappingStart
  | flowMappingEnd
  | entry
  | flowEntry
  | key
  | value
  | alias (name : String)
  | anchor (name : String)
  | tag (tag : WrittenTag)
  | scalar (style : Style) (text : String)
  | streamEnd
  /-- Stands for what is refused; nothing is read behind it. -/
  | refused (refusal : Refusal)
  deriving DecidableEq, Repr

/-- A place where a key may begin. -/
structure PossibleKey where
  level : Nat
  number : Nat
  required : Bool
  index : Nat
  line : Nat
  column : Nat
  deriving Repr

/-- The state of reading tokens.  `read` holds the tokens so far, last one first. -/
structure Lexer where
  cursor : Cursor
  read : List Token := []
  count : Nat := 0
  flowLevel : Nat := 0
  indent : Int := -1
  outerIndents : List Int := []
  keyAllowed : Bool := true
  possibleKeys : List PossibleKey := []
  deriving Repr

namespace Lexer

/-- Adds a token. -/
def push (l : Lexer) (t : Token) : Lexer := { l with read := t :: l.read, count := l.count + 1 }

/-- Puts a token in at a place counted from the start. -/
def insertAt (l : Lexer) (number : Nat) (t : Token) : Lexer :=
  let later := l.count - number
  { l with read := l.read.take later ++ t :: l.read.drop later, count := l.count + 1 }

/-- Whether the cursor is inside brackets. -/
def inFlow (l : Lexer) : Bool := l.flowLevel != 0

/-- A key must begin on its line and within so many characters. -/
def keyReach : Nat := 1024

/-- Whether the cursor has left a possible key behind. -/
def isStale (l : Lexer) (k : PossibleKey) : Bool :=
  k.line != l.cursor.line || l.cursor.index - k.index > keyReach

/-- Drops possible keys that the cursor has left behind; a required one is malformed. -/
def dropStale (l : Lexer) : Except Stop Lexer :=
  if l.possibleKeys.any fun k => l.isStale k && k.required then .error .malformed
  else .ok { l with possibleKeys := l.possibleKeys.filter fun k => !l.isStale k }

/-- The tokens that are known whatever follows: those before the first possible key. -/
def settled (l : Lexer) : List Token :=
  let possible := (l.possibleKeys.filter fun k => !l.isStale k).map (·.number)
  l.read.reverse.take (possible.foldl min l.count)

/-- Drops the possible key of the present level; a required one is malformed. -/
def dropKey (l : Lexer) : Except Stop Lexer :=
  if l.possibleKeys.any fun k => k.level == l.flowLevel && k.required then .error .malformed
  else .ok { l with possibleKeys := l.possibleKeys.filter fun k => k.level != l.flowLevel }

/-- Remembers that a key may begin here. -/
def noteKey (l : Lexer) : Except Stop Lexer := do
  if l.keyAllowed then
    let required := !l.inFlow && l.indent == l.cursor.column
    let l ← l.dropKey
    return { l with possibleKeys :=
      ⟨l.flowLevel, l.count, required, l.cursor.index, l.cursor.line, l.cursor.column⟩ ::
        l.possibleKeys }
  else return l

/-- Ends the blocks that are further in than a column. -/
def unwind (column : Int) (l : Lexer) : Lexer :=
  if l.inFlow then l else go column l.outerIndents l
where
  /-- Goes outwards through the enclosing blocks. -/
  go (column : Int) : List Int → Lexer → Lexer
    | [], l => l
    | outer :: more, l =>
      if l.indent > column then
        go column more { l.push .blockEnd with indent := outer, outerIndents := more }
      else l

/-- Begins a block at a column if it is further in than the present one. -/
def openBlock (column : Nat) (l : Lexer) : Lexer × Bool :=
  if l.indent < column then
    ({ l with indent := column, outerIndents := l.indent :: l.outerIndents }, true)
  else (l, false)

/-- Moves to the next token.  A line end outside brackets allows a key. -/
def toToken : Nat → Lexer → Lexer
  | 0, l => l
  | fuel + 1, l =>
    let c := l.cursor.skipSpaces.skipComment
    match c.lineBreak with
    | (some _, c) =>
      toToken fuel { l with cursor := c, keyAllowed := l.keyAllowed || !l.inFlow }
    | (none, c) => { l with cursor := c }

/-- Reads a token that ends all blocks, such as a document mark. -/
def atMargin (l : Lexer) : Except Stop Lexer := do
  let l ← (l.unwind (-1)).dropKey
  return { l with keyAllowed := false }

/-- Reads an indicator of some characters that is a token by itself. -/
def indicator (l : Lexer) (width : Nat) (t : Token) : Lexer :=
  { l with cursor := l.cursor.advance width }.push t

/-- Reads an opening bracket. -/
def flowStart (l : Lexer) (t : Token) : Except Stop Lexer := do
  let l ← l.noteKey
  return { l with flowLevel := l.flowLevel + 1, keyAllowed := true }.indicator 1 t

/-- Reads a closing bracket; one that closes nothing is malformed. -/
def flowEnd (l : Lexer) (t : Token) : Except Stop Lexer := do
  let l ← l.dropKey
  if l.flowLevel = 0 then throw .malformed
  return { l with flowLevel := l.flowLevel - 1, keyAllowed := false }.indicator 1 t

/-- Reads a comma inside brackets. -/
def flowEntry (l : Lexer) : Except Stop Lexer := do
  let l ← { l with keyAllowed := true }.dropKey
  return l.indicator 1 .flowEntry

/-- Begins a block here, with the token that says so if it is a new one. -/
def openHere (l : Lexer) (t : Token) : Lexer :=
  match l.openBlock l.cursor.column with
  | (l, true) => l.push t
  | (l, false) => l

/-- Reads the dash of an entry. -/
def blockEntry (l : Lexer) : Except Stop Lexer := do
  if !l.inFlow && !l.keyAllowed then throw .malformed
  let l := if l.inFlow then l else l.openHere .blockSequenceStart
  let l ← { l with keyAllowed := true }.dropKey
  return l.indicator 1 .entry

/-- Reads the question mark of a key. -/
def explicitKey (l : Lexer) : Except Stop Lexer := do
  if !l.inFlow && !l.keyAllowed then throw .malformed
  let l := if l.inFlow then l else l.openHere .blockMappingStart
  let l ← { l with keyAllowed := !l.inFlow }.dropKey
  return l.indicator 1 .key

/-- Reads the colon before a value.  If a key may have begun before it, the tokens that mark
it are put in at its place. -/
def valueMark (l : Lexer) : Except Stop Lexer := do
  match l.possibleKeys.find? (·.level == l.flowLevel) with
  | some k =>
    let l := { l with possibleKeys := l.possibleKeys.filter (·.level != l.flowLevel) }
    let l := l.insertAt k.number .key
    let l :=
      if l.inFlow then l
      else match l.openBlock k.column with
        | (l, true) => l.insertAt k.number .blockMappingStart
        | (l, false) => l
    return { l with keyAllowed := false }.indicator 1 .value
  | none =>
    if !l.inFlow && !l.keyAllowed then throw .malformed
    let l := if l.inFlow then l else l.openHere .blockMappingStart
    let l ← { l with keyAllowed := !l.inFlow }.dropKey
    return l.indicator 1 .value

/-- Reads something that may be a key by a function of the cursor. -/
def keyed {α : Type} (l : Lexer) (scan : Cursor → Except Stop (α × Cursor)) (t : α → Token) :
    Except Stop Lexer := do
  let l ← l.noteKey
  let (x, c) ← scan l.cursor
  return { l with cursor := c, keyAllowed := false }.push (t x)

/-- Reads a block scalar from its indicator on. -/
def block (limit : Nat) (l : Lexer) (folded : Bool) : Except Stop Lexer := do
  let l ← { l with keyAllowed := true }.dropKey
  let (s, c) ← blockScalar limit l.indent folded l.cursor.next
  return { l with cursor := c }.push (.scalar .quoted s)

/-- Reads a plain scalar. -/
def plain (limit : Nat) (l : Lexer) : Except Stop Lexer := do
  let l ← l.noteKey
  let (s, keyAllowed, c) := plainScalar limit l.inFlow l.indent l.cursor
  return { l with cursor := c, keyAllowed }.push (.scalar .plain s)

/-- Characters that begin no plain scalar. -/
def isIndicator (c : Char) : Bool :=
  ['-', '?', ':', ',', '[', ']', '\x7b', '\x7d', '#', '&', '*', '!', '|', '>', '\'', '"', '%',
    '@', '\u0060'].contains c

/-- Reads the next token, which is not the end of the text. -/
def token (limit : Nat) (l : Lexer) : Except Stop Lexer :=
  let c := l.cursor
  let x := c.peek
  let gap := isGap (c.ahead 1)
  if x = '%' && c.column = 0 then do
    let l ← l.atMargin
    let (d, c) ← directive limit l.cursor
    return { l with cursor := c }.push (.directive d)
  else if x = '-' && c.column = 0 && c.atDocumentMark then do
    return (← l.atMargin).indicator 3 .documentStart
  else if x = '.' && c.column = 0 && c.atDocumentMark then do
    return (← l.atMargin).indicator 3 .documentEnd
  else if x = '[' then l.flowStart .flowSequenceStart
  else if x = '\x7b' then l.flowStart .flowMappingStart
  else if x = ']' then l.flowEnd .flowSequenceEnd
  else if x = '\x7d' then l.flowEnd .flowMappingEnd
  else if x = ',' then l.flowEntry
  else if x = '-' && gap then l.blockEntry
  else if x = '?' && (l.inFlow || gap) then l.explicitKey
  else if x = ':' && (l.inFlow || gap) then l.valueMark
  else if x = '*' then l.keyed anchorName .alias
  else if x = '&' then l.keyed anchorName .anchor
  else if x = '!' then l.keyed (writtenTag limit) .tag
  else if x = '|' && !l.inFlow then l.block limit false
  else if x = '>' && !l.inFlow then l.block limit true
  else if x = '\'' || x = '"' then l.keyed (quotedScalar limit) (.scalar .quoted)
  else if !(isGap x || isIndicator x) ||
      (!gap && (x = '-' || (!l.inFlow && (x = '?' || x = ':')))) then l.plain limit
  else .error .malformed

/-- Reads tokens up to the end of the text, or to what is refused. -/
def run (limit : Nat) : Nat → Lexer → Except Stop (List Token)
  | 0, _ => .error .malformed
  | fuel + 1, before => do
    let l ← (before.toToken limit).dropStale
    let l := l.unwind l.cursor.column
    if l.cursor.rest.isEmpty then
      let l ← (l.unwind (-1)).dropKey
      return (l.push .streamEnd).read.reverse
    else
      match l.token limit with
      | .ok l => run limit fuel l
      | .error (.refused r) => return before.settled ++ [.refused r]
      | .error .malformed => throw .malformed

end Lexer

/-- The tokens of a text.  A byte order mark at the start is no part of it. -/
def tokens (cs : List Char) : Except Stop (List Token) :=
  if !cs.all isAllowed then .error .malformed
  else
    let limit := cs.length + 2
    let cs := if cs.head? = some '\ufeff' then cs.drop 1 else cs
    Lexer.run limit limit { cursor := { rest := cs } }

end OpenApiClient.Yaml
