import OpenApiClient.Proofs.Scanning
import OpenApiClient.Yaml.Content

/-!
# How deep nodes lie in each other

The nodes of a document lie no deeper in each other than the document has tokens, aliases included:
what is inside a collection is read when at least one token more was read than before it.  So there
is fuel enough for the values of all nodes.
-/

namespace OpenApiClient.Yaml

mutual

/-- How deep nodes lie in a node. -/
def Node.height : Node → Nat
  | .scalar _ _ => 0
  | .sequence _ items => heightOfItems items
  | .mapping _ _ entries => heightOfEntries entries

/-- How deep nodes lie in a node with some items. -/
def heightOfItems : List Node → Nat
  | [] => 0
  | item :: items => max (item.height + 1) (heightOfItems items)

/-- How deep nodes lie in a node with some entries. -/
def heightOfEntries : List (Node × Node) → Nat
  | [] => 0
  | (k, v) :: entries => max (max (k.height + 1) (v.height + 1)) (heightOfEntries entries)

end

theorem heightOfItems_le_iff {items : List Node} {n : Nat} :
    heightOfItems items ≤ n ↔ ∀ item ∈ items, item.height < n := by
  induction items with
  | nil => simp [heightOfItems]
  | cons item items ih =>
      rw [heightOfItems, Nat.max_le, ih, List.forall_mem_cons, Nat.succ_le_iff]

theorem heightOfEntries_le_iff {entries : List (Node × Node)} {n : Nat} :
    heightOfEntries entries ≤ n ↔ ∀ e ∈ entries, e.1.height < n ∧ e.2.height < n := by
  induction entries with
  | nil => simp [heightOfEntries]
  | cons e entries ih =>
      rw [heightOfEntries, Nat.max_le, Nat.max_le, ih, List.forall_mem_cons, Nat.succ_le_iff,
        Nat.succ_le_iff]

namespace Reader

variable {ts : List Token} {room : Nat} {r r' : Reader}

/-- A reader with room for the tokens that are left, and for the nodes of its anchors besides. -/
structure Fits (ts : List Token) (room : Nat) (r : Reader) : Prop where
  suffix : r.rest <:+ ts
  rest : r.rest.length < room
  anchors : ∀ a node, (a, some node) ∈ r.anchors → node.height + r.rest.length < room

/-- What is refused is marked among the tokens. -/
abbrev Marked (ts : List Token) (q : Refusal) : Prop := .refused q ∈ ts

theorem length_next_le (r : Reader) : r.next.rest.length ≤ r.rest.length := by
  simp [Reader.next]

namespace Fits

theorem mono (h : r.Fits ts room) {room' : Nat} (hroom : room ≤ room') : r.Fits ts room' :=
  ⟨h.suffix, Nat.lt_of_lt_of_le h.rest hroom,
    fun a node hnode => Nat.lt_of_lt_of_le (h.anchors a node hnode) hroom⟩

theorem next (h : r.Fits ts room) : r.next.Fits ts room := by
  have hle := r.length_next_le
  refine ⟨(List.drop_suffix 1 r.rest).trans h.suffix, Nat.lt_of_le_of_lt hle h.rest,
    fun a node hnode => ?_⟩
  exact Nat.lt_of_le_of_lt (Nat.add_le_add_left hle _) (h.anchors a node hnode)

/-- Behind a token that is taken there is more room. -/
theorem next_of_front (h : r.Fits ts (room + 1)) (hfront : r.front ≠ .streamEnd) :
    r.next.Fits ts room := by
  obtain ⟨t, rest, hrest⟩ : ∃ t rest, r.rest = t :: rest := by
    cases hrest : r.rest with
    | nil => exact absurd (by rw [Reader.front, hrest]; rfl) hfront
    | cons t rest => exact ⟨t, rest, rfl⟩
  have hlength : r.rest.length = r.next.rest.length + 1 := by simp [Reader.next, hrest]
  refine ⟨h.next.suffix, ?_, fun a node hnode => ?_⟩
  · have := h.rest
    omega
  · have := h.anchors a node hnode
    omega

theorem record (h : r.Fits ts room) (anchor : Option String) {node : Option Node}
    (hnode : ∀ n ∈ node, n.height + r.rest.length < room) :
    (r.record anchor node).Fits ts room := by
  cases anchor with
  | none => exact h
  | some name =>
      refine ⟨h.suffix, h.rest, fun a n hn => ?_⟩
      rcases List.mem_cons.1 hn with heq | hn
      · exact hnode n (Prod.mk.inj heq).2.symm
      · exact h.anchors a n hn

theorem peek (h : r.Fits ts room) : Reads (Marked ts) (r.front = ·) r.peek := by
  unfold Reader.peek
  split
  · next q hfront =>
      refine h.suffix.subset ?_
      cases hrest : r.rest with
      | nil =>
          rw [Reader.front, hrest] at hfront
          cases hfront
      | cons t rest =>
          rw [Reader.front, hrest] at hfront
          exact hfront ▸ List.mem_cons_self
  · exact rfl

theorem at? (h : r.Fits ts room) (ends : List Token) :
    Reads (Marked ts) (fun _ => True) (r.at? ends) :=
  h.peek.bind fun _ _ => True.intro

/-- Anchor and tag leave the room as it is. -/
theorem properties (h : r.Fits ts room) :
    Reads (Marked ts) (fun x => x.2.2.Fits ts room ∧ x.2.2.rest.length ≤ r.rest.length)
      r.properties := by
  have hnext := r.length_next_le
  have hnext' := Nat.le_trans r.next.length_next_le hnext
  refine h.peek.bind fun t _ => ?_
  split
  · refine h.next.peek.bind fun t _ => ?_
    split
    · exact ⟨h.next.next, hnext'⟩
    · exact ⟨h.next, hnext⟩
  · refine h.next.peek.bind fun t _ => ?_
    split
    · exact ⟨h.next.next, hnext'⟩
    · exact ⟨h.next, hnext⟩
  · exact ⟨h, Nat.le_refl _⟩

end Fits

end Reader

/-! ### What is read fits -/

open Reader

/-- A node that was read, with the reader behind it. -/
structure FitsNode (ts : List Token) (room : Nat) (r : Reader) (x : Node × Reader) : Prop where
  height : x.1.height + x.2.rest.length < room
  fits : x.2.Fits ts room
  rest : x.2.rest.length ≤ r.rest.length

/-- Items with the reader behind them. -/
structure FitsItems (ts : List Token) (room : Nat) (r : Reader) (x : List Node × Reader) :
    Prop where
  height : ∀ item ∈ x.1, item.height + x.2.rest.length < room
  fits : x.2.Fits ts room
  rest : x.2.rest.length ≤ r.rest.length

/-- Entries with the reader behind them. -/
structure FitsEntries (ts : List Token) (room : Nat) (r : Reader)
    (x : List (Node × Node) × Reader) : Prop where
  height : ∀ e ∈ x.1, e.1.height + x.2.rest.length < room ∧ e.2.height + x.2.rest.length < room
  fits : x.2.Fits ts room
  rest : x.2.rest.length ≤ r.rest.length

/-- Whatever is read with some fuel fits. -/
structure ReadsFit (ts : List Token) (fuel : Nat) : Prop where
  node : ∀ {room r} (block indentless : Bool), r.Fits ts room →
    Reads (Marked ts) (FitsNode ts room r) (readNode fuel block indentless r)
  place : ∀ {room r} (block indentless : Bool) (ends : List Token), r.Fits ts room →
    Reads (Marked ts) (FitsNode ts room r) (readPlace fuel block indentless ends r)
  blockItems : ∀ {room start r read}, FitsItems ts room start (read, r) →
    Reads (Marked ts) (FitsItems ts room start) (readBlockItems fuel read r)
  indentless : ∀ {room start r read}, r.Fits ts (room + 1) → r.rest.length ≤ start.rest.length →
    (∀ item ∈ read, item.height + r.rest.length < room) →
    Reads (Marked ts) (fun x => ∀ tag, FitsNode ts (room + 1) start (.sequence tag x.1, x.2))
      (readIndentless fuel read r)
  blockEntries : ∀ {room start r read}, FitsEntries ts room start (read, r) →
    Reads (Marked ts) (FitsEntries ts room start) (readBlockEntries fuel read r)
  flowItems : ∀ {room start r read} (first : Bool), FitsItems ts room start (read, r) →
    Reads (Marked ts) (FitsItems ts room start) (readFlowItems fuel first read r)
  flowEntries : ∀ {room start r read} (first : Bool), FitsEntries ts room start (read, r) →
    Reads (Marked ts) (FitsEntries ts room start) (readFlowEntries fuel first read r)

section Steps

variable {ts : List Token} {room fuel : Nat} {start r r' r'' : Reader} {node : Node}
  {read items : List Node} {entries : List (Node × Node)}

theorem FitsNode.of_length_le (h : FitsNode ts room r' (node, r''))
    (hrest : r'.rest.length ≤ r.rest.length) : FitsNode ts room r (node, r'') :=
  ⟨h.height, h.fits, Nat.le_trans h.rest hrest⟩

/-- What fits at one place fits further on. -/
theorem height_add_lt {n : Nat} (h : n + r.rest.length < room)
    (hrest : r'.rest.length ≤ r.rest.length) : n + r'.rest.length < room :=
  Nat.lt_of_le_of_lt (Nat.add_le_add_left hrest n) h

theorem fitsNode_scalar (h : r'.Fits ts room) (hrest : r'.rest.length ≤ r.rest.length) (tag : Tag)
    (text : String) : FitsNode ts room r (.scalar tag text, r') :=
  ⟨by simpa [Node.height] using h.rest, h, hrest⟩

/-- An empty place fits where it is. -/
theorem fitsNode_empty (h : r.Fits ts room) : FitsNode ts room r (.empty, r) :=
  fitsNode_scalar h (Nat.le_refl _) _ _

namespace FitsItems

theorem cons (h : FitsItems ts room start (read, r)) (hnode : FitsNode ts room r (node, r')) :
    FitsItems ts room start (node :: read, r') := by
  refine ⟨fun item hitem => ?_, hnode.fits, Nat.le_trans hnode.rest h.rest⟩
  rcases List.mem_cons.1 hitem with rfl | hitem
  · exact hnode.height
  · exact height_add_lt (h.height item hitem) hnode.rest

theorem next (h : FitsItems ts room start (read, r)) : FitsItems ts room start (read, r.next) :=
  ⟨fun item hitem => height_add_lt (h.height item hitem) r.length_next_le, h.fits.next,
    Nat.le_trans r.length_next_le h.rest⟩

theorem reverse (h : FitsItems ts room start (read, r)) :
    FitsItems ts room start (read.reverse, r) :=
  ⟨fun item hitem => h.height item (List.mem_reverse.1 hitem), h.fits, h.rest⟩

/-- A collection fits where a token more is left than for its items. -/
theorem sequence (h : FitsItems ts room start (items, r)) (tag : Tag) :
    FitsNode ts (room + 1) start (.sequence tag items, r) := by
  have hheight : heightOfItems items ≤ room - r.rest.length :=
    heightOfItems_le_iff.2 fun item hitem => Nat.lt_sub_of_add_lt (h.height item hitem)
  have hlength : r.rest.length < room := h.fits.rest
  refine ⟨?_, h.fits.mono (Nat.le_succ room), h.rest⟩
  rw [Node.height]
  dsimp only
  omega

end FitsItems

namespace FitsEntries

theorem next (h : FitsEntries ts room start (entries, r)) :
    FitsEntries ts room start (entries, r.next) :=
  ⟨fun e he => ⟨height_add_lt (h.height e he).1 r.length_next_le,
    height_add_lt (h.height e he).2 r.length_next_le⟩, h.fits.next,
    Nat.le_trans r.length_next_le h.rest⟩

theorem reverse (h : FitsEntries ts room start (entries, r)) :
    FitsEntries ts room start (entries.reverse, r) :=
  ⟨fun e he => h.height e (List.mem_reverse.1 he), h.fits, h.rest⟩

/-- A key and its value come to the entries before them. -/
theorem cons {key value : Node} (h : FitsEntries ts room start (entries, r))
    (hkey : FitsNode ts room r (key, r')) (hvalue : FitsNode ts room r' (value, r'')) :
    FitsEntries ts room start ((key, value) :: entries, r'') := by
  have hrest := Nat.le_trans hvalue.rest hkey.rest
  refine ⟨fun e he => ?_, hvalue.fits, Nat.le_trans hrest h.rest⟩
  rcases List.mem_cons.1 he with rfl | he
  · exact ⟨height_add_lt hkey.height hvalue.rest, hvalue.height⟩
  · exact ⟨height_add_lt (h.height e he).1 hrest, height_add_lt (h.height e he).2 hrest⟩

theorem mapping (h : FitsEntries ts room start (entries, r)) (number : Nat) (tag : Tag) :
    FitsNode ts (room + 1) start (.mapping number tag entries, r) := by
  have hheight : heightOfEntries entries ≤ room - r.rest.length :=
    heightOfEntries_le_iff.2 fun e he =>
      ⟨Nat.lt_sub_of_add_lt (h.height e he).1, Nat.lt_sub_of_add_lt (h.height e he).2⟩
  have hlength : r.rest.length < room := h.fits.rest
  refine ⟨?_, h.fits.mono (Nat.le_succ room), h.rest⟩
  rw [Node.height]
  dsimp only
  omega

end FitsEntries

theorem Reader.Fits.exists_room (h : r.Fits ts room) : ∃ n, room = n + 1 :=
  Nat.exists_eq_succ_of_ne_zero (Nat.ne_zero_of_lt h.rest)

theorem Reader.Fits.renumber (h : r.Fits ts room) (number : Nat) :
    { r with number := number }.Fits ts room := ⟨h.suffix, h.rest, h.anchors⟩

theorem Reader.rest_record (r : Reader) (anchor : Option String) (node : Option Node) :
    (r.record anchor node).rest = r.rest := by
  cases anchor <;> rfl

/-- A node that fits still does when it is recorded under its anchor. -/
theorem FitsNode.record (h : FitsNode ts room start (node, r)) (anchor : Option String) :
    FitsNode ts room start (node, r.record anchor (some node)) := by
  have hrest := r.rest_record anchor (some node)
  refine ⟨?_, h.fits.record anchor fun n hn => Option.some.inj hn ▸ h.height, ?_⟩
  · rw [hrest]
    exact h.height
  · rw [hrest]
    exact h.rest

theorem Reader.Fits.opened (h : r.Fits ts room) (anchor : Option String) :
    (r.record anchor none).Fits ts room := h.record anchor nofun

/-- The token that begins a collection makes room for one level more. -/
theorem Reader.Fits.next_record (h : r.Fits ts (room + 1)) (anchor : Option String)
    (hfront : r.front ≠ .streamEnd) : (r.record anchor none).next.Fits ts room := by
  refine (h.opened anchor).next_of_front ?_
  rwa [Reader.front, rest_record]

theorem Reader.length_next_record_le (anchor : Option String)
    (hle : r.rest.length ≤ start.rest.length) :
    (r.record anchor none).next.rest.length ≤ start.rest.length := by
  refine Nat.le_trans (length_next_le _) ?_
  rwa [rest_record]

/-- Behind the token that begins a list, no items have been read. -/
theorem fitsItems_opened (h : r.Fits ts (room + 1)) (hle : r.rest.length ≤ start.rest.length)
    (anchor : Option String) (hfront : r.front ≠ .streamEnd) :
    FitsItems ts room start ([], (r.record anchor none).next) :=
  ⟨nofun, h.next_record anchor hfront, Reader.length_next_record_le anchor hle⟩

theorem fitsEntries_opened (h : r.Fits ts (room + 1)) (hle : r.rest.length ≤ start.rest.length)
    (anchor : Option String) (hfront : r.front ≠ .streamEnd) (number : Nat) :
    FitsEntries ts room start ([], { (r.record anchor none).next with number := number }) :=
  ⟨nofun, (h.next_record anchor hfront).renumber number, Reader.length_next_record_le anchor hle⟩

theorem reads_tagName (r : Reader) (t : WrittenTag) :
    Reads (Marked ts) (fun _ => True) (r.tagName t) := by
  unfold Reader.tagName
  split
  · exact True.intro
  · split <;> exact True.intro

/-! ### One step with more fuel -/

theorem reads_place (h : ReadsFit ts fuel) (hr : r.Fits ts room) (block indentless : Bool)
    (ends : List Token) :
    Reads (Marked ts) (FitsNode ts room r) (readPlace (fuel + 1) block indentless ends r) := by
  rw [readPlace]
  refine (hr.at? ends).bind fun isEnd _ => ?_
  exact .ite (fun _ => fitsNode_empty hr) fun _ => h.node block indentless hr

theorem reads_blockItems (h : ReadsFit ts fuel) (hread : FitsItems ts room start (read, r)) :
    Reads (Marked ts) (FitsItems ts room start) (readBlockItems (fuel + 1) read r) := by
  rw [readBlockItems]
  refine hread.fits.peek.bind fun t _ => ?_
  split
  · refine (h.place true false _ hread.fits.next).bind fun ⟨node, r'⟩ hnode => ?_
    exact h.blockItems (hread.next.cons hnode)
  · exact hread.next.reverse
  · exact True.intro

theorem reads_indentless (h : ReadsFit ts fuel) (hr : r.Fits ts (room + 1))
    (hrest : r.rest.length ≤ start.rest.length)
    (hread : ∀ item ∈ read, item.height + r.rest.length < room) :
    Reads (Marked ts) (fun x => ∀ tag, FitsNode ts (room + 1) start (.sequence tag x.1, x.2))
      (readIndentless (fuel + 1) read r) := by
  rw [readIndentless]
  refine hr.peek.bind fun t ht => ?_
  split
  · have hnext : r.next.Fits ts room := hr.next_of_front (by rw [ht]; nofun)
    have hitems : FitsItems ts room start (read, r.next) :=
      ⟨fun item hitem => height_add_lt (hread item hitem) r.length_next_le, hnext,
        Nat.le_trans r.length_next_le hrest⟩
    refine (h.place true false _ hnext).bind fun ⟨node, r'⟩ hnode => ?_
    have hcons := hitems.cons hnode
    exact h.indentless (hcons.fits.mono (Nat.le_succ room)) hcons.rest hcons.height
  · have hheight : heightOfItems read.reverse ≤ room - r.rest.length :=
      heightOfItems_le_iff.2 fun item hitem =>
        Nat.lt_sub_of_add_lt (hread item (List.mem_reverse.1 hitem))
    have hlength := hr.rest
    refine fun tag => ⟨?_, hr, hrest⟩
    rw [Node.height]
    dsimp only
    omega

theorem reads_blockEntries (h : ReadsFit ts fuel)
    (hread : FitsEntries ts room start (entries, r)) :
    Reads (Marked ts) (FitsEntries ts room start) (readBlockEntries (fuel + 1) entries r) := by
  rw [readBlockEntries]
  refine hread.fits.peek.bind fun t _ => ?_
  split
  · refine (h.place true true _ hread.fits.next).bind fun ⟨key, r₁⟩ hkey => ?_
    refine hkey.fits.peek.bind fun t _ => .ite (fun _ => ?_) fun _ => ?_
    · refine (h.place true true _ hkey.fits.next).bind fun ⟨value, r₂⟩ hvalue => ?_
      exact h.blockEntries (hread.next.cons hkey (hvalue.of_length_le r₁.length_next_le))
    · exact h.blockEntries (hread.next.cons hkey (fitsNode_empty hkey.fits))
  · exact hread.next.reverse
  · exact True.intro

/-- An entry that is an item by itself is a mapping, for whose key a token more was read. -/
theorem FitsNode.pair {number : Nat} {tag : Tag} {key value : Node}
    (hkey : FitsNode ts room r (key, r')) (hvalue : FitsNode ts room r' (value, r'')) :
    FitsNode ts (room + 1) r (.mapping number tag [(key, value)], r'') := by
  have hkey' : key.height + r''.rest.length < room := height_add_lt hkey.height hvalue.rest
  have hvalue' : value.height + r''.rest.length < room := hvalue.height
  refine ⟨?_, hvalue.fits.mono (Nat.le_succ room), Nat.le_trans hvalue.rest hkey.rest⟩
  rw [Node.height, heightOfEntries, heightOfEntries]
  dsimp only
  omega

theorem reads_flowItems (h : ReadsFit ts fuel) (first : Bool)
    (hread : FitsItems ts room start (read, r)) :
    Reads (Marked ts) (FitsItems ts room start) (readFlowItems (fuel + 1) first read r) := by
  rw [readFlowItems]
  refine hread.fits.peek.bind fun t _ => .ite (fun _ => hread.next.reverse) fun _ => ?_
  refine hread.fits.peek.bind fun t _ => .ite (fun _ => True.intro) fun _ => ?_
  have hitem : FitsItems ts room start (read, if first then r else r.next) := by
    cases first with
    | true => exact hread
    | false => exact hread.next
  generalize (if first then r else r.next) = r₀ at hitem
  refine hitem.fits.peek.bind fun t ht => ?_
  split
  · obtain ⟨room, rfl⟩ := hitem.fits.exists_room
    have hnext := (hitem.fits.next_of_front (by rw [ht]; nofun)).renumber (r₀.number + 1)
    refine (h.place false false _ hnext).bind fun ⟨key, r₁⟩ hkey => ?_
    have hkey' : FitsNode ts room r₀ (key, r₁) := hkey.of_length_le r₀.length_next_le
    refine hkey.fits.peek.bind fun t _ => .ite (fun _ => ?_) fun _ => ?_
    · refine (h.place false false _ hkey.fits.next).bind fun ⟨value, r₂⟩ hvalue => ?_
      exact h.flowItems false (hitem.cons (hkey'.pair (hvalue.of_length_le r₁.length_next_le)))
    · exact h.flowItems false (hitem.cons (hkey'.pair (fitsNode_empty hkey.fits)))
  · exact hitem.next.reverse
  · refine (h.node false false hitem.fits).bind fun ⟨node, r₁⟩ hnode => ?_
    exact h.flowItems false (hitem.cons hnode)

theorem reads_flowEntries (h : ReadsFit ts fuel) (first : Bool)
    (hread : FitsEntries ts room start (entries, r)) :
    Reads (Marked ts) (FitsEntries ts room start) (readFlowEntries (fuel + 1) first entries r) := by
  rw [readFlowEntries]
  refine hread.fits.peek.bind fun t _ => .ite (fun _ => hread.next.reverse) fun _ => ?_
  refine hread.fits.peek.bind fun t _ => .ite (fun _ => True.intro) fun _ => ?_
  have hentry : FitsEntries ts room start (entries, if first then r else r.next) := by
    cases first with
    | true => exact hread
    | false => exact hread.next
  generalize (if first then r else r.next) = r₀ at hentry
  refine hentry.fits.peek.bind fun t _ => ?_
  split
  · refine (h.place false false _ hentry.fits.next).bind fun ⟨key, r₁⟩ hkey => ?_
    refine hkey.fits.peek.bind fun t _ => .ite (fun _ => ?_) fun _ => ?_
    · refine (h.place false false _ hkey.fits.next).bind fun ⟨value, r₂⟩ hvalue => ?_
      exact h.flowEntries false
        (hentry.next.cons hkey (hvalue.of_length_le r₁.length_next_le))
    · exact h.flowEntries false (hentry.next.cons hkey (fitsNode_empty hkey.fits))
  · exact hentry.next.reverse
  · refine (h.node false false hentry.fits).bind fun ⟨node, r₁⟩ hnode => ?_
    exact h.flowEntries false (hentry.cons hnode (fitsNode_empty hnode.fits))

theorem reads_node (h : ReadsFit ts fuel) (hr : r.Fits ts room) (block indentless : Bool) :
    Reads (Marked ts) (FitsNode ts room r) (readNode (fuel + 1) block indentless r) := by
  rw [readNode]
  refine hr.peek.bind fun t _ => ?_
  extract_lets jp
  have hjp : Reads (Marked ts) (FitsNode ts room r) (jp ()) := by
    refine hr.properties.bind fun ⟨anchor, written, r₀⟩ ⟨hr₀, hle⟩ => ?_
    have hname : Reads (Marked ts) (fun _ => True) (written.mapM r₀.tagName) := by
      cases written with
      | none => exact True.intro
      | some t => exact (reads_tagName r₀ t).bind fun _ _ => True.intro
    refine hname.bind fun name _ => hr₀.peek.bind fun t ht => .ite (fun _ => True.intro) fun _ => ?_
    dsimp only at hle hr₀ ht ⊢
    obtain ⟨room, rfl⟩ := hr₀.exists_room
    have hempty (tag : Tag) : Reads (Marked ts) (FitsNode ts (room + 1) r)
        (if anchor.isSome || name.isSome then
          pure (Node.scalar tag "", r₀.record anchor (some (.scalar tag "")))
        else throw .malformed) :=
      .ite (fun _ => (fitsNode_scalar hr₀ hle tag "").record anchor) fun _ => True.intro
    have hlist (hfront : t ≠ .streamEnd) :
        FitsItems ts room r ([], (r₀.record anchor none).next) :=
      fitsItems_opened hr₀ hle anchor (ht ▸ hfront)
    have hmap (hfront : t ≠ .streamEnd) (number : Nat) :
        FitsEntries ts room r ([], { (r₀.record anchor none).next with number := number }) :=
      fitsEntries_opened hr₀ hle anchor (ht ▸ hfront) number
    have hblock (start : Token) (hfront : (block && t = start) = true)
        (hstart : start ≠ .streamEnd) : t ≠ .streamEnd := by
      rw [Bool.and_eq_true, decide_eq_true_eq] at hfront
      exact hfront.2 ▸ hstart
    split
    · refine .ite (fun _ => ?_) fun _ => hempty _
      have hstart : (r₀.record anchor none).rest.length ≤ r.rest.length := by
        rw [rest_record]
        exact hle
      exact (h.indentless (hr₀.opened anchor) hstart fun _ hitem =>
        absurd hitem List.not_mem_nil).bind fun ⟨items, r₁⟩ hitems => (hitems _).record anchor
    · exact (fitsNode_scalar hr₀.next (Nat.le_trans r₀.length_next_le hle) _ _).record anchor
    · exact (h.flowItems true (hlist nofun)).bind fun ⟨items, r₁⟩ hitems =>
        (hitems.sequence _).record anchor
    · exact (h.flowEntries true (hmap nofun _)).bind fun ⟨entries, r₁⟩ hentries =>
        (hentries.mapping _ _).record anchor
    · refine .ite (fun hfront => ?_) fun _ => .ite (fun hfront => ?_) fun _ => hempty _
      · exact (h.blockItems (hlist (hblock _ hfront nofun))).bind fun ⟨items, r₁⟩ hitems =>
          (hitems.sequence _).record anchor
      · exact (h.blockEntries (hmap (hblock _ hfront nofun) _)).bind
          fun ⟨entries, r₁⟩ hentries => (hentries.mapping _ _).record anchor
  split
  · next name _ =>
      split
      · next node hlookup =>
          obtain ⟨before, after, heq, -⟩ := List.lookup_eq_some_iff.1 hlookup
          have hheight := hr.anchors name node (by simp [heq])
          exact ⟨height_add_lt hheight r.length_next_le, hr.next, r.length_next_le⟩
      · exact True.intro
  · exact hjp

theorem readsFit (ts : List Token) (fuel : Nat) : ReadsFit ts fuel := by
  induction fuel with
  | zero =>
      constructor <;> intros
      · rw [readNode]
        exact True.intro
      · rw [readPlace]
        exact True.intro
      · rw [readBlockItems]
        exact True.intro
      · rw [readIndentless]
        exact True.intro
      · rw [readBlockEntries]
        exact True.intro
      · rw [readFlowItems]
        exact True.intro
      · rw [readFlowEntries]
        exact True.intro
  | succ fuel ih =>
      exact
        { node := fun block indentless hr => reads_node ih hr block indentless
          place := fun block indentless ends hr => reads_place ih hr block indentless ends
          blockItems := fun hread => reads_blockItems ih hread
          indentless := fun hr hrest hread => reads_indentless ih hr hrest hread
          blockEntries := fun hread => reads_blockEntries ih hread
          flowItems := fun first hread => reads_flowItems ih first hread
          flowEntries := fun first hread => reads_flowEntries ih first hread }

end Steps

/-! ### Whole documents -/

section Documents

variable {ts : List Token} {room : Nat} {r : Reader} {node : Node}

theorem reads_directives (ts rest : List Token) (hrest : rest <:+ ts) (versioned : Bool)
    (handles : List (String × String)) :
    Reads (Marked ts) (fun x => x.2 <:+ ts) (Reader.readDirectives rest versioned handles) := by
  induction rest generalizing versioned handles with
  | nil => exact hrest
  | cons t rest ih =>
      have hrest' := (List.suffix_cons t rest).trans hrest
      unfold Reader.readDirectives
      split
      · next heq =>
          obtain ⟨-, rfl⟩ := List.cons.inj heq
          exact .ite (fun _ => True.intro) fun _ => ih hrest' _ _
      · next heq =>
          obtain ⟨-, rfl⟩ := List.cons.inj heq
          exact .ite (fun _ => True.intro) fun _ => ih hrest' _ _
      · next heq =>
          obtain ⟨-, rfl⟩ := List.cons.inj heq
          exact ih hrest' _ _
      · exact hrest

/-- A document ends with its node. -/
theorem reads_finish (h : r.rest <:+ ts) {n : Nat} (hnode : node.height ≤ n) :
    Reads (Marked ts) (fun node? => ∀ node ∈ node?, node.height ≤ n) (r.finish node) := by
  have hends : Reader.dropEnds r.rest <:+ ts := (List.dropWhile_suffix _).trans h
  unfold Reader.finish
  dsimp only
  refine .ite (fun _ => ?_) fun _ => ?_
  · exact fun node' heq => Option.some.inj heq ▸ hnode
  · refine (reads_directives ts _ hends false []).bind fun ⟨handles, rest⟩ hrest => ?_
    have hfits : Reader.Fits ts (rest.length + 1) { r with rest := rest, anchors := [] } :=
      ⟨hrest, Nat.lt_succ_self _, nofun⟩
    exact hfits.peek.bind fun _ _ => True.intro

/-- Nodes lie no deeper in each other than there are tokens, and a document is refused only for a
mark among its tokens. -/
theorem reads_document (ts : List Token) :
    Reads (Marked ts) (fun node? => ∀ node ∈ node?, node.height ≤ ts.length) (document? ts) := by
  have hnode {r : Reader} (hr : r.Fits ts (ts.length + 1)) :
      Reads (Marked ts) (fun node? => ∀ node ∈ node?, node.height ≤ ts.length)
        (readNode (3 * ts.length + 3) true false r >>= fun found => found.2.finish found.1) := by
    refine ((readsFit ts _).node true false hr).bind fun found h => ?_
    have hheight : found.1.height + found.2.rest.length < ts.length + 1 := h.height
    exact reads_finish h.fits.suffix (by omega)
  have hstart : Reader.Fits ts (ts.length + 1) { rest := ts, handles := Reader.defaultHandles } :=
    ⟨List.suffix_refl ts, Nat.lt_succ_self _, nofun⟩
  unfold document?
  dsimp only
  refine hstart.peek.bind fun front _ => .ite (fun _ => hnode hstart) fun _ =>
    .ite (fun _ => ?_) fun _ => ?_
  · exact nofun
  refine (reads_directives ts ts (List.suffix_refl ts) false []).bind fun found hrest => ?_
  have hread : Reader.Fits ts (ts.length + 1) { rest := found.2, handles := found.1 } :=
    ⟨hrest, Nat.lt_succ_of_le hrest.length_le, nofun⟩
  refine hread.peek.bind fun front _ => .ite (fun _ => True.intro) fun _ => ?_
  refine hread.next.peek.bind fun front _ => .ite (fun _ => ?_) fun _ => hnode hread.next
  exact reads_finish hread.next.suffix (Nat.zero_le _)

end Documents

end OpenApiClient.Yaml
