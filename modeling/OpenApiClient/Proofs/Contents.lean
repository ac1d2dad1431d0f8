import Mathlib.Data.List.Shortlex
import OpenApiClient.Proofs.Heights

/-!
# Where a document cannot be read

A document is made of its root, of the items of its lists, and of the keys and values of its
mappings once merge keys were replaced.  Each of these has a place: the way to it from the root.
The document has a value exactly if every part can be read.  If some cannot, the first of them
counts, level by level from the root.
-/

namespace OpenApiClient.Yaml

/-- A part of a document: the node of a value or of a key, or what does not have the shape that its
tag asks for. -/
inductive Part where
  | value (node : Node)
  | key (node : Node)
  | misfit

/-- Why a scalar of a document cannot be read. -/
def stopOf {α : Type} : Except Stop α → Option Stop
  | .ok _ => none
  | .error stop => some stop

/-- Whether a tag is that of a collection. -/
def Tag.isCollection : Tag → Bool
  | .seq | .map | .set | .omap | .pairs => true
  | _ => false

namespace Part

/-- The parts of a pair. -/
def ofPair : Node → List Part
  | .mapping _ _ [(k, v)] => [.value k, .value v]
  | _ => [.misfit]

/-- The parts of entries. -/
def ofEntries (entries : List (Node × Node)) : List Part :=
  entries.flatMap fun e => [.key e.1, .value e.2]

/-- The parts that a part is made of. -/
def parts : Part → List Part
  | .value node =>
    match node.tag, node with
    | .seq, .sequence _ items => items.map .value
    | .omap, .sequence _ items => items.flatMap ofPair
    | .pairs, .sequence _ items => items.flatMap ofPair
    | .map, .mapping _ _ _ =>
      match node.mergedEntries? with
      | some entries => ofEntries entries
      | none => [.misfit]
    | .set, .mapping _ _ _ =>
      match node.mergedEntries? with
      | some entries => ofEntries entries
      | none => [.misfit]
    | tag, _ => if tag.isCollection then [.misfit] else []
  | _ => []

/-- Why a part by itself cannot be read. -/
def stop? : Part → Option Stop
  | .value node => if node.tag.isCollection then none else stopOf (scalarContent node.tag node)
  | .key node =>
    if node.tag.isCollection then some .malformed else stopOf (scalarContent node.tag node)
  | .misfit => some .malformed

/-- The part at a place, if there is one. -/
def at? : Part → List Nat → Option Part
  | p, [] => some p
  | p, i :: path => p.parts[i]?.bind (·.at? path)

/-- Why the part at a place cannot be read. -/
def stopAt? (p : Part) (path : List Nat) : Option Stop := (p.at? path).bind stop?

end Part

/-- Why some part cannot be read, where a place begins with the number of the part. -/
def stopIn (ps : List Part) : List Nat → Option Stop
  | [] => none
  | i :: path => ps[i]?.bind (·.stopAt? path)

/-- Nothing stops at an earlier place, by levels and then from left to right. -/
def IsFirst (stopAt : List Nat → Option Stop) (path : List Nat) : Prop :=
  ∀ path', stopAt path' ≠ none → ¬ List.Shortlex (· < ·) path' path

/-- There is a value if nothing stops at any place, and else the stop at the first place at which
something does. -/
def Reflects {α : Type} (level : Nat) (stopAt : List Nat → Option Stop) :
    Except LevelStop α → Prop
  | .ok _ => ∀ path, stopAt path = none
  | .error e => ∃ path, e.level = level + path.length ∧ stopAt path = some e.stop ∧
      IsFirst stopAt path

section Rules

variable {α β : Type} {level : Nat} {p : Part} {ps qs : List Part} {x : Except LevelStop α}
  {y : Except LevelStop β} {stopAt : List Nat → Option Stop}

theorem Part.stopAt?_cons (p : Part) (i : Nat) (path : List Nat) :
    p.stopAt? (i :: path) = stopIn p.parts (i :: path) := by
  simp only [stopAt?, at?, stopIn, Option.bind_assoc]

theorem Reflects.map (h : Reflects level stopAt x) (f : α → β) :
    Reflects level stopAt (x.map f) := by
  cases x with
  | ok a => exact h
  | error e => exact h

/-- A part with parts of its own is read as these are. -/
theorem Reflects.branch (h : Reflects level (stopIn p.parts) x) (hp : p.stop? = none) :
    Reflects level p.stopAt? x := by
  have heq : p.stopAt? = stopIn p.parts := by
    funext path
    cases path with
    | nil => exact hp
    | cons i path => exact p.stopAt?_cons i path
  rwa [heq]

/-- A part without parts is read by itself. -/
theorem Reflects.leaf {v : Except Stop α} (hparts : p.parts = []) (hp : p.stop? = stopOf v) :
    Reflects level p.stopAt? (v.mapError (LevelStop.mk level)) := by
  have hnone (i : Nat) (path : List Nat) : p.stopAt? (i :: path) = none := by
    rw [p.stopAt?_cons, hparts]
    rfl
  cases v with
  | ok a =>
      intro path
      cases path with
      | nil => exact hp
      | cons i path => exact hnone i path
  | error stop =>
      refine ⟨[], rfl, hp, fun path' _ => List.not_shortlex_nil_right⟩

theorem Reflects.nil (a : α) : Reflects level (stopIn []) (.ok a) := fun path => by
  cases path <;> rfl

theorem IsFirst.length_le {path path' : List Nat} (h : IsFirst stopAt path)
    (hne : stopAt path' ≠ none) : path.length ≤ path'.length :=
  Nat.le_of_not_lt fun hlt => h path' hne (.of_length_lt hlt)

/-- There is one first place. -/
theorem IsFirst.unique {path path' : List Nat} (h : IsFirst stopAt path) (hne : stopAt path ≠ none)
    (h' : IsFirst stopAt path') (hne' : stopAt path' ≠ none) : path = path' :=
  List.Shortlex.trichotomous.trichotomous path path' (h' path hne) (h path' hne')

/-- A single part is read one level further in. -/
theorem Reflects.single (h : Reflects (level + 1) p.stopAt? x) : Reflects level (stopIn [p]) x := by
  have hsome {path : List Nat} (hne : stopIn [p] path ≠ none) :
      ∃ rest, path = 0 :: rest ∧ p.stopAt? rest ≠ none := by
    match path with
    | [] => exact absurd rfl hne
    | 0 :: rest => exact ⟨rest, rfl, hne⟩
    | (i + 1) :: rest => exact absurd rfl hne
  cases x with
  | ok a =>
      intro path
      by_contra hne
      obtain ⟨rest, rfl, hrest⟩ := hsome hne
      exact hrest (h rest)
  | error e =>
      obtain ⟨path, hlevel, hstop, hfirst⟩ := h
      refine ⟨0 :: path, ?_, hstop, fun path' hne => ?_⟩
      · rw [hlevel, List.length_cons]
        omega
      · obtain ⟨rest, rfl, hrest⟩ := hsome hne
        rw [List.shortlex_cons_iff]
        exact hfirst rest hrest

theorem stopIn_append_left {i : Nat} (hi : i < ps.length) (path : List Nat) :
    stopIn (ps ++ qs) (i :: path) = stopIn ps (i :: path) := by
  rw [stopIn, stopIn, List.getElem?_append_left hi]

theorem stopIn_append_right (ps qs : List Part) (j : Nat) (path : List Nat) :
    stopIn (ps ++ qs) ((ps.length + j) :: path) = stopIn qs (j :: path) := by
  rw [stopIn, stopIn, List.getElem?_append_right (Nat.le_add_right _ _), Nat.add_sub_cancel_left]

theorem exists_of_stopIn_ne_none {path : List Nat} (h : stopIn ps path ≠ none) :
    ∃ i rest, path = i :: rest ∧ i < ps.length := by
  cases path with
  | nil => exact absurd rfl h
  | cons i rest =>
      refine ⟨i, rest, rfl, Nat.lt_of_not_le fun hle => h ?_⟩
      rw [stopIn, List.getElem?_eq_none hle]
      rfl

/-- What stops among the parts of two lists stops in one of them. -/
theorem stopIn_append_cases {path : List Nat} (h : stopIn (ps ++ qs) path ≠ none) :
    stopIn ps path ≠ none ∨
      ∃ j rest, path = (ps.length + j) :: rest ∧ stopIn qs (j :: rest) ≠ none := by
  obtain ⟨i, rest, rfl, -⟩ := exists_of_stopIn_ne_none h
  by_cases hi : i < ps.length
  · exact .inl (stopIn_append_left hi rest ▸ h)
  · obtain ⟨j, rfl⟩ := Nat.exists_eq_add_of_le (Nat.le_of_not_lt hi)
    exact .inr ⟨j, rest, rfl, stopIn_append_right ps qs j rest ▸ h⟩

theorem shortlex_add_iff {n i j : Nat} {path path' : List Nat} :
    List.Shortlex (· < ·) ((n + i) :: path) ((n + j) :: path') ↔
      List.Shortlex (· < ·) (i :: path) (j :: path') := by
  simp [List.shortlex_def, List.cons_lex_cons_iff]

/-- The first place in the first list is the first of all, if no place in the other one is at a
lower level. -/
theorem IsFirst.append_left {path : List Nat} (h : IsFirst (stopIn ps) path)
    (hne : stopIn ps path ≠ none)
    (hqs : ∀ path', stopIn qs path' ≠ none → path.length ≤ path'.length) :
    IsFirst (stopIn (ps ++ qs)) path := by
  intro path' hne'
  rcases stopIn_append_cases hne' with hps | ⟨j, rest, rfl, hrest⟩
  · exact h path' hps
  · obtain ⟨i, tail, rfl, hi⟩ := exists_of_stopIn_ne_none hne
    have hlength := hqs _ hrest
    simp only [List.length_cons] at hlength
    rw [List.shortlex_def, List.cons_lex_cons_iff]
    simp only [List.length_cons]
    omega

/-- The first place in the second list is the first of all, if it is at a lower level than any place
in the first one. -/
theorem IsFirst.append_right {j : Nat} {path : List Nat} (h : IsFirst (stopIn qs) (j :: path))
    (hps : ∀ path', stopIn ps path' ≠ none → path.length + 1 < path'.length) :
    IsFirst (stopIn (ps ++ qs)) ((ps.length + j) :: path) := by
  intro path' hne'
  rcases stopIn_append_cases hne' with hne | ⟨i, rest, rfl, hrest⟩
  · have hlength := hps path' hne
    rw [List.shortlex_def, List.length_cons]
    omega
  · rw [shortlex_add_iff]
    exact h _ hrest

/-- Of two results the stop counts that comes first. -/
theorem Reflects.append (hx : Reflects level (stopIn ps) x) (hy : Reflects level (stopIn qs) y) :
    Reflects level (stopIn (ps ++ qs)) (bothOf x y) := by
  cases x with
  | ok a =>
      have hps (path' : List Nat) : stopIn ps path' ≠ none → False := fun hne => hne (hx path')
      cases y with
      | ok b =>
          intro path
          by_contra hne
          rcases stopIn_append_cases hne with hne | ⟨j, rest, -, hrest⟩
          · exact hps path hne
          · exact hrest (hy _)
      | error t =>
          obtain ⟨path, hlevel, hstop, hfirst⟩ := hy
          obtain ⟨j, rest, rfl, -⟩ := exists_of_stopIn_ne_none (hstop ▸ Option.some_ne_none _)
          refine ⟨(ps.length + j) :: rest, hlevel, ?_, hfirst.append_right fun path' hne => ?_⟩
          · rw [stopIn_append_right, hstop]
          · exact (hps path' hne).elim
  | error s =>
      obtain ⟨path, hlevel, hstop, hfirst⟩ := hx
      have hne : stopIn ps path ≠ none := hstop ▸ Option.some_ne_none _
      have hleft : stopIn (ps ++ qs) path = some s.stop := by
        obtain ⟨i, rest, rfl, hi⟩ := exists_of_stopIn_ne_none hne
        rw [stopIn_append_left hi, hstop]
      cases y with
      | ok b =>
          exact ⟨path, hlevel, hleft,
            hfirst.append_left hne fun path' hne' => absurd (hy path') hne'⟩
      | error t =>
          obtain ⟨path₁, hlevel₁, hstop₁, hfirst₁⟩ := hy
          obtain ⟨j, rest, rfl, -⟩ := exists_of_stopIn_ne_none (hstop₁ ▸ Option.some_ne_none _)
          unfold bothOf
          dsimp only
          by_cases hlower : t.level < s.level
          · rw [if_pos hlower]
            refine ⟨(ps.length + j) :: rest, hlevel₁, ?_, hfirst₁.append_right fun path' hne' => ?_⟩
            · rw [stopIn_append_right, hstop₁]
            · have hlength := hfirst.length_le hne'
              rw [List.length_cons] at hlevel₁
              omega
          · rw [if_neg hlower]
            refine ⟨path, hlevel, hleft, hfirst.append_left hne fun path' hne' => ?_⟩
            have hlength := hfirst₁.length_le hne'
            omega

/-- The results of a list are read as the parts of each. -/
theorem Reflects.collect {γ : Type} {f : γ → Except LevelStop α} {partsOf : γ → List Part}
    (zs : List γ)
    (h : ∀ z ∈ zs, Reflects level (stopIn (partsOf z)) (f z)) :
    Reflects level (stopIn (zs.flatMap partsOf)) (Yaml.collect (zs.map f)) := by
  induction zs with
  | nil => exact .nil _
  | cons z zs ih =>
      rw [List.flatMap_cons, List.map_cons, Yaml.collect]
      exact (Reflects.append (h z List.mem_cons_self)
        (ih fun z' hz' => h z' (List.mem_cons_of_mem z hz'))).map _

end Rules

/-! ### Merged entries -/

/-- Entries that lie lower than some height. -/
def LieBelow (n : Nat) (entries : List (Node × Node)) : Prop :=
  ∀ e ∈ entries, e.1.height < n ∧ e.2.height < n

theorem LieBelow.mono {n m : Nat} {entries : List (Node × Node)} (h : LieBelow n entries)
    (hnm : n ≤ m) : LieBelow m entries := fun e he =>
  ⟨Nat.lt_of_lt_of_le (h e he).1 hnm, Nat.lt_of_lt_of_le (h e he).2 hnm⟩

theorem LieBelow.append {n : Nat} {entries others : List (Node × Node)} (h : LieBelow n entries)
    (h' : LieBelow n others) : LieBelow n (entries ++ others) := fun e he =>
  (List.mem_append.1 he).elim (h e) (h' e)

theorem height_retag (tag : Tag) (node : Node) : (node.retag tag).height = node.height := by
  cases node <;> rfl

/-- What holds of the merged entries of a mapping and of its own holds of all. -/
theorem lieBelow_of_map {n : Nat} {parts : Option (List (Node × Node) × List (Node × Node))}
    (h : ∀ merged own, parts = some (merged, own) → LieBelow n merged ∧ LieBelow n own)
    {entries : List (Node × Node)}
    (heq : parts.map (fun (merged, own) => merged ++ own) = some entries) : LieBelow n entries := by
  obtain ⟨⟨merged, own⟩, hparts, rfl⟩ := Option.map_eq_some_iff.1 heq
  obtain ⟨hmerged, hown⟩ := h merged own hparts
  exact hmerged.append hown

mutual

theorem lieBelow_mergedEntries? : ∀ (node : Node) {entries : List (Node × Node)},
    node.mergedEntries? = some entries → LieBelow node.height entries
  | .scalar _ _, _, h => nomatch h
  | .sequence _ _, _, h => nomatch h
  | .mapping _ _ es, _, h => lieBelow_of_map (fun _ _ => lieBelow_mergeEntries? es) h

theorem lieBelow_taken? : ∀ (node : Node) {entries : List (Node × Node)},
    node.taken? = some entries → LieBelow node.height entries
  | .scalar _ _, _, h => nomatch h
  | .sequence _ items, _, h => lieBelow_mergeItems? items h
  | .mapping _ _ es, _, h => lieBelow_of_map (fun _ _ => lieBelow_mergeEntries? es) h

/-- Neither what is taken over nor what is left lies deeper than the entries of the mapping. -/
theorem lieBelow_mergeEntries? : ∀ (es : List (Node × Node)) {merged own : List (Node × Node)},
    mergeEntries? es = some (merged, own) →
    LieBelow (heightOfEntries es) merged ∧ LieBelow (heightOfEntries es) own
  | [], _, _, h => by
      rw [mergeEntries?] at h
      cases h
      exact ⟨nofun, nofun⟩
  | (k, v) :: es, merged, own, h => by
      rw [mergeEntries?] at h
      rw [heightOfEntries]
      split at h
      · split at h
        · next taken merged' own' htaken hmore =>
            cases h
            obtain ⟨hmerged, hown⟩ := lieBelow_mergeEntries? es hmore
            have hv := lieBelow_taken? v htaken
            exact ⟨(hv.mono (by omega)).append (hmerged.mono (Nat.le_max_right _ _)),
              hown.mono (Nat.le_max_right _ _)⟩
        · cases h
      · dsimp only at h
        split at h
        · next merged' own' hmore =>
            cases h
            obtain ⟨hmerged, hown⟩ := lieBelow_mergeEntries? es hmore
            refine ⟨hmerged.mono (Nat.le_max_right _ _), fun e he => ?_⟩
            rcases List.mem_cons.1 he with rfl | he
            · have hk : (if k.tag = .value then k.retag .str else k).height = k.height := by
                split
                · exact height_retag .str k
                · rfl
              dsimp only
              omega
            · exact hown.mono (Nat.le_max_right _ _) e he
        · cases h

theorem lieBelow_mergeItems? : ∀ (items : List Node) {entries : List (Node × Node)},
    mergeItems? items = some entries → LieBelow (heightOfItems items) entries
  | [], _, h => by
      rw [mergeItems?] at h
      cases h
      exact nofun
  | item :: items, _, h => by
      rw [mergeItems?] at h
      split at h
      · next entries later hitem hlater =>
          obtain rfl := Option.some.inj h
          have hitems := lieBelow_mergeItems? items hlater
          have hfirst := lieBelow_mergedEntries? item hitem
          rw [heightOfItems]
          exact (hitems.mono (Nat.le_max_right _ _)).append (hfirst.mono (by omega))
      · cases h

end

/-! ### Values -/

section Values

variable {level fuel : Nat} {node : Node}

theorem reflects_keyContent (level : Nat) (node : Node) :
    Reflects level (Part.key node).stopAt? (keyContent level node) := by
  have hkey : keyContent level node =
      (if node.tag.isCollection then .error .malformed
        else scalarContent node.tag node : Except Stop Scalar).mapError (LevelStop.mk level) := by
    unfold keyContent
    cases node.tag
    case map | seq | pairs | set | omap => rfl
    all_goals
      dsimp only
      generalize scalarContent _ node = found
      cases found <;> rfl
  rw [hkey]
  refine .leaf (p := .key node) rfl ?_
  rw [Part.stop?]
  split <;> rfl

/-- The value of a scalar is read by itself. -/
theorem Reflects.scalar (hparts : (Part.value node).parts = [])
    (h : node.tag.isCollection = false) :
    Reflects level (Part.value node).stopAt? (match scalarContent node.tag node with
      | .ok s => .ok (.scalar s)
      | .error stop => .error ⟨level, stop⟩ : Except LevelStop Value) := by
  have hmap : (match scalarContent node.tag node with
      | .ok s => .ok (.scalar s)
      | .error stop => .error ⟨level, stop⟩ : Except LevelStop Value) =
      ((scalarContent node.tag node).mapError (LevelStop.mk level)).map .scalar := by
    cases scalarContent node.tag node <;> rfl
  rw [hmap]
  exact (Reflects.leaf hparts (by rw [Part.stop?, h]; rfl)).map _

/-- A collection of the wrong shape is malformed. -/
theorem Reflects.misfit {α : Type} (hparts : (Part.value node).parts = [.misfit])
    (h : node.tag.isCollection = true) :
    Reflects level (Part.value node).stopAt?
      (.error ⟨level + 1, .malformed⟩ : Except LevelStop α) := by
  refine .branch ?_ (by rw [Part.stop?, h]; rfl)
  rw [hparts]
  exact .single (.leaf (p := .misfit) (v := .error .malformed) rfl rfl)

/-- The value of a pair, given how its members are read. -/
def pairContent (level : Nat) (f : Node → Except LevelStop Value) : Node → Except LevelStop Value
  | .mapping _ _ [(k, v)] => (bothOf (f k) (f v)).map fun (a, b) => .pair a b
  | _ => .error ⟨level, .malformed⟩

/-- The members of a pair are read one after the other. -/
theorem Reflects.pair {f : Node → Except LevelStop Value} {item : Node}
    (h : ∀ inner : Node, inner.height < item.height →
      Reflects level (stopIn [.value inner]) (f inner)) :
    Reflects level (stopIn (Part.ofPair item)) (pairContent (level + 1) f item) := by
  unfold Part.ofPair pairContent
  split
  · next k v =>
      have hk := h k (by simp only [Node.height, heightOfEntries]; omega)
      have hv := h v (by simp only [Node.height, heightOfEntries]; omega)
      exact (hk.append hv).map _
  · exact .single (.leaf (p := .misfit) (v := .error .malformed) rfl rfl)

/-- Keys and values of a mapping are read in turn, once its merge keys were replaced. -/
theorem Reflects.mapping {f : Node → Except LevelStop Value} (g : List (Scalar × Value) → Value)
    (hcollection : node.tag.isCollection = true)
    (hparts : (Part.value node).parts = match node.mergedEntries? with
      | some entries => Part.ofEntries entries
      | none => [.misfit])
    (h : ∀ inner : Node, inner.height < node.height →
      Reflects level (stopIn [.value inner]) (f inner)) :
    Reflects level (Part.value node).stopAt? (match node.mergedEntries? with
      | some entries =>
        (Yaml.collect (entries.map fun (k, v) => bothOf (keyContent (level + 1) k) (f v))).map g
      | none => .error ⟨level + 1, .malformed⟩) := by
  cases hmerged : node.mergedEntries? with
  | none => exact .misfit (by rw [hparts, hmerged]) hcollection
  | some entries =>
      have hbelow := lieBelow_mergedEntries? node hmerged
      refine .branch ?_ (by rw [Part.stop?, hcollection]; rfl)
      rw [hparts, hmerged]
      refine (Reflects.collect entries fun e he => ?_).map g
      exact (Reflects.single (reflects_keyContent (level + 1) e.1)).append (h e.2 (hbelow e he).2)

/-- The value of a node is read part by part, if there is fuel for its height. -/
theorem reflects_content (h : node.height < fuel) (level : Nat) :
    Reflects level (Part.value node).stopAt? (content fuel level node) := by
  induction fuel generalizing node level with
  | zero => omega
  | succ fuel ih =>
      have hvalue (inner : Node) (hinner : inner.height < node.height) :
          Reflects level (stopIn [.value inner]) (content fuel (level + 1) inner) :=
        (ih (by omega) (level + 1)).single
      cases node with
      | scalar tag text =>
          cases tag
          all_goals first | exact .scalar rfl rfl | exact .misfit rfl rfl
      | sequence tag items =>
          have hitems : ∀ item ∈ items, item.height < (Node.sequence tag items).height :=
            heightOfItems_le_iff.1 (Nat.le_refl _)
          have hpairs : Reflects level (stopIn (items.flatMap Part.ofPair))
              (collect (items.map (pairContent (level + 1) (content fuel (level + 1))))) :=
            Reflects.collect items fun item hitem => Reflects.pair fun inner hinner =>
              hvalue inner (Nat.lt_trans hinner (hitems item hitem))
          cases tag with
          | seq =>
              refine .branch ?_ rfl
              rw [show (Part.value (.sequence .seq items)).parts = items.map .value from rfl,
                List.map_eq_flatMap]
              exact (Reflects.collect items fun item hitem => hvalue item (hitems item hitem)).map _
          | omap => exact .branch (hpairs.map _) rfl
          | pairs => exact .branch (hpairs.map _) rfl
          | map | set => exact .misfit rfl rfl
          | _ => exact .scalar rfl rfl
      | mapping number tag entries =>
          cases tag with
          | map => exact .mapping (fun pairs => .map number (Value.ofPairs pairs)) rfl rfl hvalue
          | set =>
              exact .mapping (fun pairs => .set (pairs.foldl (fun ms p => addMember ms p.1) []))
                rfl rfl hvalue
          | seq | omap | pairs => exact .misfit rfl rfl
          | _ => exact .scalar rfl rfl

end Values

/-! ### Whole texts -/

/-- A text holds a document with a node. -/
def Holds (s : String) (node : Node) : Prop :=
  ∃ ts, tokens s.toList = .ok ts ∧ document? ts = .ok (some node)

/-- A text holds no document. -/
def IsVacant (s : String) : Prop := ∃ ts, tokens s.toList = .ok ts ∧ document? ts = .ok none

/-- What a text is refused for: something in it that is met before its document is known, or else
the first part of the document that cannot be read. -/
inductive Refuses (s : String) (r : Refusal) : Prop
  | token {ts : List Token} : tokens s.toList = .ok ts → document? ts = .error (.refused r) →
      Refuses s r
  | part {node : Node} {path : List Nat} : Holds s node →
      (Part.value node).stopAt? path = some (.refused r) → IsFirst (Part.value node).stopAt? path →
      Refuses s r

section Texts

variable {s : String} {node : Node} {r : Refusal} {ts : List Token}

/-- There is fuel for every document, so its value is read part by part. -/
theorem reflects_document (h : document? ts = .ok (some node)) :
    Reflects 0 (Part.value node).stopAt? (content (ts.length + 1) 0 node) :=
  reflects_content (Nat.lt_succ_of_le ((reads_document ts).of_ok h node rfl)) 0

theorem read_of_tokens (htokens : tokens s.toList = .ok ts) :
    read s = document? ts >>= fun node? => match node? with
      | none => .ok .null
      | some node => (content (ts.length + 1) 0 node).mapError LevelStop.stop := by
  rw [read, htokens]
  change (document? ts >>= _) = _
  congr 1
  funext node?
  cases node? with
  | none => rfl
  | some node => cases hcontent : content (ts.length + 1) 0 node <;> simp [hcontent] <;> rfl

/-- A text with a document has a value if no part of it stops, and else the first stop counts. -/
theorem read_of_holds (h : Holds s node) :
    match read s with
    | .ok _ => ∀ path, (Part.value node).stopAt? path = none
    | .error stop => ∃ path, (Part.value node).stopAt? path = some stop ∧
        IsFirst (Part.value node).stopAt? path := by
  obtain ⟨ts, htokens, hdocument⟩ := h
  have hreflects := reflects_document hdocument
  rw [read_of_tokens htokens, hdocument]
  change match (content (ts.length + 1) 0 node).mapError LevelStop.stop with
    | .ok _ => _
    | .error stop => _
  cases hcontent : content (ts.length + 1) 0 node with
  | ok v =>
      rw [hcontent] at hreflects
      exact hreflects
  | error e =>
      rw [hcontent] at hreflects
      obtain ⟨path, -, hstop, hfirst⟩ := hreflects
      exact ⟨path, hstop, hfirst⟩

theorem exists_read_iff :
    (∃ v, read s = .ok v) ↔
      IsVacant s ∨ ∃ node, Holds s node ∧ ∀ path, (Part.value node).stopAt? path = none := by
  constructor
  · rintro ⟨v, hv⟩
    cases htokens : tokens s.toList with
    | error stop =>
        rw [read, htokens] at hv
        cases hv
    | ok ts =>
        cases hdocument : document? ts with
        | error stop =>
            rw [read_of_tokens htokens, hdocument] at hv
            cases hv
        | ok node? =>
            cases node? with
            | none => exact .inl ⟨ts, htokens, hdocument⟩
            | some node =>
                have hparts := read_of_holds ⟨ts, htokens, hdocument⟩
                rw [hv] at hparts
                exact .inr ⟨node, ⟨ts, htokens, hdocument⟩, hparts⟩
  · rintro (⟨ts, htokens, hdocument⟩ | ⟨node, hholds, hnone⟩)
    · exact ⟨.null, by rw [read_of_tokens htokens, hdocument]; rfl⟩
    · have hparts := read_of_holds hholds
      cases hread : read s with
      | ok v => exact ⟨v, rfl⟩
      | error stop =>
          rw [hread] at hparts
          obtain ⟨path, hstop, -⟩ := hparts
          rw [hnone] at hstop
          cases hstop

/-- A text is refused for what it holds, and for nothing else. -/
theorem read_eq_refused_iff : read s = .error (.refused r) ↔ Refuses s r := by
  constructor
  · intro h
    have htext := reads_tokens s.toList
    cases htokens : tokens s.toList with
    | error stop =>
        rw [htokens] at htext
        rw [read, htokens] at h
        cases Except.error.inj h
        exact htext.elim
    | ok ts =>
        cases hdocument : document? ts with
        | error stop =>
            rw [read_of_tokens htokens, hdocument] at h
            cases Except.error.inj h
            exact .token htokens hdocument
        | ok node? =>
            cases node? with
            | none =>
                rw [read_of_tokens htokens, hdocument] at h
                cases h
            | some node =>
                have hparts := read_of_holds ⟨ts, htokens, hdocument⟩
                rw [h] at hparts
                obtain ⟨path, hstop, hfirst⟩ := hparts
                exact .part ⟨ts, htokens, hdocument⟩ hstop hfirst
  · rintro (⟨htokens, hdocument⟩ | ⟨hholds, hstop, hfirst⟩)
    · rw [read_of_tokens htokens, hdocument]
      rfl
    · have hparts := read_of_holds hholds
      cases hread : read s with
      | ok v =>
          rw [hread] at hparts
          rw [hparts] at hstop
          cases hstop
      | error stop =>
          rw [hread] at hparts
          obtain ⟨path', hstop', hfirst'⟩ := hparts
          have hpath := hfirst'.unique (hstop' ▸ Option.some_ne_none _) hfirst
            (hstop ▸ Option.some_ne_none _)
          rw [hpath, hstop] at hstop'
          rw [Option.some.inj hstop']

/-- What is met before the document is known stands in the text. -/
theorem outOfRange_of_document? (htokens : tokens s.toList = .ok ts)
    (h : document? ts = .error (.refused r)) : OutOfRange s.toList r := by
  have hmarked := reads_document ts
  rw [h] at hmarked
  exact (reads_tokens s.toList).of_ok htokens r hmarked

end Texts

end OpenApiClient.Yaml
