import OpenApiClient.Value.Key
import OpenApiClient.Yaml.Node
import OpenApiClient.Yaml.Numeral

/-!
# The value of a YAML document

What the nodes of a document stand for.  A merge key takes over the entries of other
mappings, which come before the mapping's own entries; an entry of the mapping itself keeps
the place of the one that it replaces.  The number of a mapping node becomes the origin of its
value.

Several nodes may be at fault.  The one nearest to the root counts, and of those the first,
as if the document were read level by level.
-/

namespace OpenApiClient.Yaml

/-- A stop together with the level at which it was met. -/
structure LevelStop where
  level : Nat
  stop : Stop
  deriving Repr

/-- Two results together; of two stops the one at the lower level, or the first. -/
def bothOf {α β : Type} (a : Except LevelStop α) (b : Except LevelStop β) :
    Except LevelStop (α × β) :=
  match a, b with
  | .ok x, .ok y => .ok (x, y)
  | .ok _, .error s => .error s
  | .error s, .ok _ => .error s
  | .error s, .error t => .error (if t.level < s.level then t else s)

/-- The node with another tag. -/
def Node.retag (tag : Tag) : Node → Node
  | .scalar _ text => .scalar tag text
  | .sequence _ items => .sequence tag items
  | .mapping number _ entries => .mapping number tag entries

mutual

/-- The text of a node as a scalar.  A mapping has the one under its value key. -/
def Node.scalarText? : Node → Option String
  | .scalar _ text => some text
  | .sequence _ _ => none
  | .mapping _ _ entries => entriesText? entries

/-- The text under the value key among some entries. -/
def entriesText? : List (Node × Node) → Option String
  | [] => none
  | (k, v) :: rest => if k.tag = .value then v.scalarText? else entriesText? rest

end

mutual

/-- The entries of a mapping node after its merge keys were replaced. -/
def Node.mergedEntries? : Node → Option (List (Node × Node))
  | .mapping _ _ entries => (mergeEntries? entries).map fun (merged, own) => merged ++ own
  | _ => none

/-- The entries that a merge key takes over from its value. -/
def Node.taken? : Node → Option (List (Node × Node))
  | .mapping _ _ entries => (mergeEntries? entries).map fun (merged, own) => merged ++ own
  | .sequence _ items => mergeItems? items
  | .scalar _ _ => none

/-- The entries taken over by merge keys, and the others.  A key that stands for a value is
a text. -/
def mergeEntries? : List (Node × Node) → Option (List (Node × Node) × List (Node × Node))
  | [] => some ([], [])
  | (k, v) :: rest =>
    if k.tag = .merge then
      match v.taken?, mergeEntries? rest with
      | some taken, some (merged, own) => some (taken ++ merged, own)
      | _, _ => none
    else
      let k := if k.tag = .value then k.retag .str else k
      match mergeEntries? rest with
      | some (merged, own) => some (merged, (k, v) :: own)
      | none => none

/-- The entries taken over from a list of mappings, those of later mappings first, so that
earlier mappings win. -/
def mergeItems? : List Node → Option (List (Node × Node))
  | [] => some []
  | item :: rest =>
    match item.mergedEntries?, mergeItems? rest with
    | some entries, some later => some (later ++ entries)
    | _, _ => none

end

/-- A scalar value of a node with a scalar tag. -/
def scalarContent (tag : Tag) (node : Node) : Except Stop Scalar :=
  match node.scalarText? with
  | none => .error .malformed
  | some s =>
    match tag with
    | .null => .ok .null
    | .bool => (boolean s).map .bool
    | .int => (integer s).map .int
    | .float => (floating s).map .float
    | .timestamp =>
      match node with
      | .scalar _ _ => stamp s
      | _ => .error (.refused .notText)
    | .binary => (binary s).map .bytes
    | .str => .ok (.str s)
    | _ => .error .malformed

/-- Adds a member unless it is there. -/
def addMember (ms : List Scalar) (m : Scalar) : List Scalar :=
  if ms.any (·.same m) then ms else ms ++ [m]

/-- All results of a list; of several stops the one that counts. -/
def collect {α : Type} : List (Except LevelStop α) → Except LevelStop (List α)
  | [] => .ok []
  | r :: rest => (bothOf r (collect rest)).map fun (x, xs) => x :: xs

/-- The value of a key at a level.  A key must be a scalar. -/
def keyContent (level : Nat) (node : Node) : Except LevelStop Scalar :=
  match node.tag with
  | .seq | .map | .set | .omap | .pairs => .error ⟨level, .malformed⟩
  | tag =>
    match scalarContent tag node with
    | .ok s => .ok s
    | .error stop => .error ⟨level, stop⟩

/-- The value of a node at a level.  The fuel bounds how deep nodes lie in each other. -/
def content : Nat → Nat → Node → Except LevelStop Value
  | 0, level, _ => .error ⟨level, .malformed⟩
  | fuel + 1, level, node =>
    let inner := level + 1
    let entriesOf (entries : List (Node × Node)) : Except LevelStop (List (Scalar × Value)) :=
      collect (entries.map fun (k, v) => bothOf (keyContent inner k) (content fuel inner v))
    let pairOf : Node → Except LevelStop Value
      | .mapping _ _ [(k, v)] =>
        (bothOf (content fuel inner k) (content fuel inner v)).map fun (a, b) => .pair a b
      | _ => .error ⟨inner, .malformed⟩
    match node.tag, node with
    | .seq, .sequence _ items => (collect (items.map (content fuel inner))).map .seq
    | .omap, .sequence _ items => (collect (items.map pairOf)).map .seq
    | .pairs, .sequence _ items => (collect (items.map pairOf)).map .seq
    | .map, .mapping number _ _ =>
      match node.mergedEntries? with
      | some entries => (entriesOf entries).map fun pairs => .map number (Value.ofPairs pairs)
      | none => .error ⟨inner, .malformed⟩
    | .set, .mapping _ _ _ =>
      match node.mergedEntries? with
      | some entries =>
        (entriesOf entries).map fun pairs =>
          .set (pairs.foldl (fun ms p => addMember ms p.1) [])
      | none => .error ⟨inner, .malformed⟩
    | .seq, _ | .omap, _ | .pairs, _ | .map, _ | .set, _ => .error ⟨inner, .malformed⟩
    | tag, _ =>
      match scalarContent tag node with
      | .ok s => .ok (.scalar s)
      | .error stop => .error ⟨level, stop⟩

/-- The value of a text, null if it holds no document. -/
def read (s : String) : Except Stop Value := do
  let ts ← tokens s.toList
  match ← document? ts with
  | none => return .null
  | some node =>
    match content (ts.length + 1) 0 node with
    | .ok v => return v
    | .error e => throw e.stop

end OpenApiClient.Yaml
