import OpenApiClient.Yaml.Tag
import OpenApiClient.Yaml.Token

/-!
# Nodes of a YAML document

Tokens become a tree of scalars, sequences and mappings, each with its tag.  Every mapping
has a number of its own, and an alias gives the very node of its anchor, number included.  A
text must hold one document at most.  A node may not contain itself.  Reading ends where it
comes to what is refused.
-/

namespace OpenApiClient.Yaml

/-- Nodes.  Mappings are numbered. -/
inductive Node where
  | scalar (tag : Tag) (text : String)
  | sequence (tag : Tag) (items : List Node)
  | mapping (number : Nat) (tag : Tag) (entries : List (Node × Node))
  deriving Repr

/-- The tag of a node. -/
def Node.tag : Node → Tag
  | .scalar t _ => t
  | .sequence t _ => t
  | .mapping _ t _ => t

/-- The node of an empty place. -/
def Node.empty : Node := .scalar .null ""

instance : Inhabited Node := ⟨Node.empty⟩

/-- What is left to read, the nodes of the anchors so far (none for a node that is still
being read), and the number of the next mapping. -/
structure Reader where
  rest : List Token
  handles : List (String × String)
  anchors : List (String × Option Node) := []
  number : Nat := 0

namespace Reader

/-- The token at the front. -/
def front (r : Reader) : Token := r.rest.headD .streamEnd

/-- The token at the front, unless it stands for what is refused. -/
def peek (r : Reader) : Except Stop Token :=
  match r.front with
  | .refused refusal => .error (.refused refusal)
  | t => .ok t

/-- Drops the token at the front. -/
def next (r : Reader) : Reader := { r with rest := r.rest.drop 1 }

/-- Whether the token at the front is one of some. -/
def at? (r : Reader) (ts : List Token) : Except Stop Bool := do
  return ts.contains (← r.peek)

/-- Records the node of an anchor. -/
def record (r : Reader) (anchor : Option String) (node : Option Node) : Reader :=
  match anchor with
  | none => r
  | some name => { r with anchors := (name, node) :: r.anchors }

/-- The full name of a tag. -/
def tagName (r : Reader) (t : WrittenTag) : Except Stop String :=
  match t.handle with
  | none => .ok t.suffix
  | some h =>
    match r.handles.lookup h with
    | some start => .ok (start ++ t.suffix)
    | none => .error .malformed

/-- Reads anchor and tag before a node, in either order. -/
def properties (r : Reader) : Except Stop (Option String × Option WrittenTag × Reader) := do
  match ← r.peek with
  | .anchor name =>
    match ← r.next.peek with
    | .tag t => return (some name, some t, r.next.next)
    | _ => return (some name, none, r.next)
  | .tag t =>
    match ← r.next.peek with
    | .anchor name => return (some name, some t, r.next.next)
    | _ => return (none, some t, r.next)
  | _ => return (none, none, r)

/-- The tag of a collection. -/
def collectionTag (name : Option String) (default : Tag) : Tag :=
  match name with
  | none => default
  | some "!" => default
  | some name => Tag.ofName name

/-- The tag of a scalar. -/
def scalarTag (name : Option String) (style : Style) (text : String) : Tag :=
  match name, style with
  | none, .plain => bareTag text
  | none, .quoted => .str
  | some "!", _ => bareTag text
  | some name, _ => Tag.ofName name

end Reader

open Reader in
mutual

/-- Reads a node.  Only in block context may blocks begin here, and only where it is allowed
may a sequence stand at the indentation of the mapping around it. -/
def readNode : Nat → (block indentless : Bool) → Reader → Except Stop (Node × Reader)
  | 0, _, _, _ => .error .malformed
  | fuel + 1, block, indentless, r => do
    if let .alias name := ← r.peek then
      match r.anchors.lookup name with
      | some (some node) => return (node, r.next)
      | _ => throw .malformed
    let (anchor, written, r) ← r.properties
    let name ← written.mapM r.tagName
    let front ← r.peek
    if anchor.any fun a => (r.anchors.lookup a).isSome then throw .malformed
    let opened := r.record anchor none
    let close (node : Node) (after : Reader) : Node × Reader :=
      (node, after.record anchor (some node))
    match front with
    | .entry =>
      if indentless then
        let (items, after) ← readIndentless fuel [] opened
        return close (.sequence (collectionTag name .seq) items) after
      else if anchor.isSome || name.isSome then
        return close (.scalar (scalarTag name .plain "") "") r
      else throw .malformed
    | .scalar style text => return close (.scalar (scalarTag name style text) text) r.next
    | .flowSequenceStart =>
      let (items, after) ← readFlowItems fuel true [] opened.next
      return close (.sequence (collectionTag name .seq) items) after
    | .flowMappingStart =>
      let started := { opened.next with number := r.number + 1 }
      let (entries, after) ← readFlowEntries fuel true [] started
      return close (.mapping r.number (collectionTag name .map) entries) after
    | t =>
      if block && t = .blockSequenceStart then
        let (items, after) ← readBlockItems fuel [] opened.next
        return close (.sequence (collectionTag name .seq) items) after
      else if block && t = .blockMappingStart then
        let started := { opened.next with number := r.number + 1 }
        let (entries, after) ← readBlockEntries fuel [] started
        return close (.mapping r.number (collectionTag name .map) entries) after
      else if anchor.isSome || name.isSome then
        return close (.scalar (scalarTag name .plain "") "") r
      else throw .malformed

/-- Reads a node unless one of some tokens shows that the place is empty. -/
def readPlace : Nat → (block indentless : Bool) → List Token → Reader →
    Except Stop (Node × Reader)
  | 0, _, _, _, _ => .error .malformed
  | fuel + 1, block, indentless, ends, r => do
    if ← r.at? ends then return (.empty, r) else readNode fuel block indentless r

/-- Reads the items of a block sequence up to its end. -/
def readBlockItems : Nat → List Node → Reader → Except Stop (List Node × Reader)
  | 0, _, _ => .error .malformed
  | fuel + 1, read, r => do
    match ← r.peek with
    | .entry =>
      let (node, r) ← readPlace fuel true false [.entry, .blockEnd] r.next
      readBlockItems fuel (node :: read) r
    | .blockEnd => return (read.reverse, r.next)
    | _ => throw .malformed

/-- Reads the items of a sequence at the indentation of the mapping around it. -/
def readIndentless : Nat → List Node → Reader → Except Stop (List Node × Reader)
  | 0, _, _ => .error .malformed
  | fuel + 1, read, r => do
    match ← r.peek with
    | .entry =>
      let (node, r) ← readPlace fuel true false [.entry, .key, .value, .blockEnd] r.next
      readIndentless fuel (node :: read) r
    | _ => return (read.reverse, r)

/-- Reads the entries of a block mapping up to its end. -/
def readBlockEntries : Nat → List (Node × Node) → Reader →
    Except Stop (List (Node × Node) × Reader)
  | 0, _, _ => .error .malformed
  | fuel + 1, read, r => do
    match ← r.peek with
    | .key =>
      let (key, r) ← readPlace fuel true true [.key, .value, .blockEnd] r.next
      if (← r.peek) = .value then
        let (value, r) ← readPlace fuel true true [.key, .value, .blockEnd] r.next
        readBlockEntries fuel ((key, value) :: read) r
      else readBlockEntries fuel ((key, .empty) :: read) r
    | .blockEnd => return (read.reverse, r.next)
    | _ => throw .malformed

/-- Reads the items of a sequence in brackets.  An item with a colon is a mapping of one
entry. -/
def readFlowItems : Nat → Bool → List Node → Reader → Except Stop (List Node × Reader)
  | 0, _, _, _ => .error .malformed
  | fuel + 1, first, read, r => do
    if (← r.peek) = .flowSequenceEnd then return (read.reverse, r.next)
    if !first && (← r.peek) ≠ .flowEntry then throw .malformed
    let r := if first then r else r.next
    match ← r.peek with
    | .key =>
      let number := r.number
      let r := { r.next with number := number + 1 }
      let (key, r) ← readPlace fuel false false [.value, .flowEntry, .flowSequenceEnd] r
      if (← r.peek) = .value then
        let (value, r) ← readPlace fuel false false [.flowEntry, .flowSequenceEnd] r.next
        readFlowItems fuel false (.mapping number .map [(key, value)] :: read) r
      else readFlowItems fuel false (.mapping number .map [(key, .empty)] :: read) r
    | .flowSequenceEnd => return (read.reverse, r.next)
    | _ =>
      let (node, r) ← readNode fuel false false r
      readFlowItems fuel false (node :: read) r

/-- Reads the entries of a mapping in braces. -/
def readFlowEntries : Nat → Bool → List (Node × Node) → Reader →
    Except Stop (List (Node × Node) × Reader)
  | 0, _, _, _ => .error .malformed
  | fuel + 1, first, read, r => do
    if (← r.peek) = .flowMappingEnd then return (read.reverse, r.next)
    if !first && (← r.peek) ≠ .flowEntry then throw .malformed
    let r := if first then r else r.next
    match ← r.peek with
    | .key =>
      let (key, r) ← readPlace fuel false false [.value, .flowEntry, .flowMappingEnd] r.next
      if (← r.peek) = .value then
        let (value, r) ← readPlace fuel false false [.flowEntry, .flowMappingEnd] r.next
        readFlowEntries fuel false ((key, value) :: read) r
      else readFlowEntries fuel false ((key, .empty) :: read) r
    | .flowMappingEnd => return (read.reverse, r.next)
    | _ =>
      let (node, r) ← readNode fuel false false r
      readFlowEntries fuel false ((node, .empty) :: read) r

end

namespace Reader

/-- Handles that every document knows. -/
def defaultHandles : List (String × String) := [("!", "!"), ("!!", Tag.namespaceText)]

/-- Reads the directives before a document: at most one version, which must be 1, and each
handle at most once. -/
def readDirectives : List Token → Bool → List (String × String) →
    Except Stop (List (String × String) × List Token)
  | .directive (.version major) :: rest, versioned, handles =>
    if versioned || major ≠ 1 then .error .malformed else readDirectives rest true handles
  | .directive (.tag handle start) :: rest, versioned, handles =>
    if (handles.lookup handle).isSome then .error .malformed
    else readDirectives rest versioned ((handle, start) :: handles)
  | .directive .other :: rest, versioned, handles => readDirectives rest versioned handles
  | rest, _, handles => .ok (handles ++ defaultHandles, rest)

/-- Drops the marks of document ends at the front. -/
def dropEnds (ts : List Token) : List Token := ts.dropWhile (· = .documentEnd)

end Reader

namespace Reader

/-- Whether a token may stand before a document. -/
def isStart : Token → Bool
  | .directive _ => true
  | .documentStart => true
  | .streamEnd => true
  | _ => false

/-- Ends a document.  Of another document only the directives are read. -/
def finish (node : Node) (r : Reader) : Except Stop (Option Node) := do
  let rest := dropEnds r.rest
  if rest = [.streamEnd] then return some node
  let (_, rest) ← readDirectives rest false []
  let _ ← { r with rest }.peek
  throw .malformed

end Reader

/-- The node of a row of tokens, none if there is no document. -/
def document? (ts : List Token) : Except Stop (Option Node) := do
  let fuel := 3 * ts.length + 3
  let r : Reader := { rest := ts, handles := Reader.defaultHandles }
  let front ← r.peek
  if !Reader.isStart front then
    let (node, r) ← readNode fuel true false r
    r.finish node
  else if front = .streamEnd then return none
  else
    let (handles, rest) ← Reader.readDirectives ts false []
    let r : Reader := { rest, handles }
    if (← r.peek) ≠ .documentStart then throw .malformed
    let r := r.next
    let front ← r.peek
    if Reader.isStart front || front = .documentEnd then r.finish .empty
    else
      let (node, r) ← readNode fuel true false r
      r.finish node

end OpenApiClient.Yaml
