import Mathlib.Data.List.Induction
import Mathlib.Data.List.Nodup

/-!
# Tables

A table has one value for every key.  A value that is put under a key takes the place of the value
that is there, and a new key comes last; so a table that is made row by row has its keys in the
order in which they are first met, each with the value that is put under it last:
`isTable_tabulate`.  Where the first value of a key counts instead, `firstsBy` keeps it and drops
the later ones.
-/

namespace OpenApiClient

/-! ### The first of every key -/

section Firsts

variable {α κ : Type} [BEq κ]

/-- Of some members, the first one of every key. -/
def firstsBy (key : α → κ) (l : List α) : List α :=
  l.foldl (fun found a => if found.any (key · == key a) then found else found ++ [a]) []

theorem firstsBy_append_singleton (key : α → κ) (l : List α) (a : α) :
    firstsBy key (l ++ [a]) = if (firstsBy key l).any (key · == key a) then firstsBy key l
      else firstsBy key l ++ [a] := by
  rw [firstsBy, List.foldl_append]
  rfl

variable [LawfulBEq κ] {key : α → κ} {l : List α}

/-- The key of each member has been taken by a first one. -/
theorem any_firstsBy (key : α → κ) (l : List α) (k : κ) :
    (firstsBy key l).any (key · == k) = l.any (key · == k) := by
  induction l using List.reverseRecOn with
  | nil => rfl
  | append_singleton l a ih =>
      rw [firstsBy_append_singleton, List.any_append, ← ih]
      split
      · next hold =>
          by_cases hk : key a = k
          · rw [← hk, hold, Bool.true_or]
          · simp [hk]
      · rw [List.any_append]

theorem firstsBy_concat (key : α → κ) (l : List α) (a : α) :
    firstsBy key (l ++ [a]) =
      if l.any (key · == key a) then firstsBy key l else firstsBy key l ++ [a] := by
  rw [firstsBy_append_singleton, any_firstsBy]

theorem firstsBy_sublist (key : α → κ) (l : List α) : (firstsBy key l).Sublist l := by
  induction l using List.reverseRecOn with
  | nil => exact List.Sublist.refl []
  | append_singleton l a ih =>
      rw [firstsBy_concat]
      split
      · exact ih.trans (List.sublist_append_left l [a])
      · exact ih.append (List.Sublist.refl [a])

/-- What comes later takes no key away. -/
theorem firstsBy_mono (key : α → κ) {l' : List α} (h : l <+: l') :
    firstsBy key l <+: firstsBy key l' := by
  obtain ⟨rest, rfl⟩ := h
  induction rest using List.reverseRecOn with
  | nil => simp
  | append_singleton rest a ih =>
      rw [← List.append_assoc, firstsBy_concat]
      split
      · exact ih
      · exact ih.trans (List.prefix_append _ _)

theorem nodup_firstsBy (key : α → κ) (l : List α) : ((firstsBy key l).map key).Nodup := by
  induction l using List.reverseRecOn with
  | nil => exact List.nodup_nil
  | append_singleton l a ih =>
      rw [firstsBy_append_singleton]
      split
      · exact ih
      · next hnew =>
          rw [List.map_append, List.map_singleton]
          refine ih.append (List.nodup_singleton _) (List.disjoint_singleton.2 fun hmem => ?_)
          obtain ⟨b, hb, heq⟩ := List.mem_map.1 hmem
          exact hnew (List.any_eq_true.2 ⟨b, hb, by simpa using heq⟩)

theorem find?_firstsBy (key : α → κ) (l : List α) (k : κ) :
    (firstsBy key l).find? (key · == k) = l.find? (key · == k) := by
  induction l using List.reverseRecOn with
  | nil => rfl
  | append_singleton l a ih =>
      rw [firstsBy_concat, List.find?_append, ← ih]
      split
      · next hold =>
          by_cases hk : key a = k
          · have hsome : ((firstsBy key l).find? (key · == k)).isSome = true := by
              rw [List.find?_isSome, ← List.any_eq_true, any_firstsBy, ← hk, hold]
            rw [Option.or_of_isSome hsome]
          · simp [hk]
      · rw [List.find?_append]

theorem mem_firstsBy {a : α} : a ∈ firstsBy key l ↔ l.find? (key · == key a) = some a := by
  rw [← find?_firstsBy]
  refine ⟨fun ha => ?_, List.mem_of_find?_eq_some⟩
  have hsome : ((firstsBy key l).find? (key · == key a)).isSome = true := by
    rw [List.find?_isSome]
    exact ⟨a, ha, beq_self_eq_true _⟩
  obtain ⟨b, hb⟩ := Option.isSome_iff_exists.1 hsome
  have hkey : key b = key a := by simpa using List.find?_some hb
  rw [hb, List.inj_on_of_nodup_map (nodup_firstsBy key l) (List.mem_of_find?_eq_some hb) ha hkey]

theorem firstsBy_map {β : Type} {f : α → β} {key' : β → κ} (h : ∀ a, key' (f a) = key a)
    (l : List α) : firstsBy key' (l.map f) = (firstsBy key l).map f := by
  induction l using List.reverseRecOn with
  | nil => rfl
  | append_singleton l a ih =>
      rw [List.map_append, List.map_singleton, firstsBy_concat, firstsBy_concat, List.any_map, ih]
      simp only [Function.comp_def, h]
      split
      · rfl
      · rw [List.map_append, List.map_singleton]

/-- The first ones stand in the order in which they are met. -/
theorem pairwise_firstsBy [DecidableEq α] (key : α → κ) (l : List α) :
    (firstsBy key l).Pairwise fun a b => l.idxOf a < l.idxOf b := by
  induction l using List.reverseRecOn with
  | nil => exact .nil
  | append_singleton l a ih =>
      have hmem {b : α} (hb : b ∈ firstsBy key l) : b ∈ l := (firstsBy_sublist key l).subset hb
      have hkept : (firstsBy key l).Pairwise fun b c =>
          (l ++ [a]).idxOf b < (l ++ [a]).idxOf c := by
        refine ih.imp_of_mem fun {b c} hb hc h => ?_
        rwa [List.idxOf_append_of_mem (hmem hb), List.idxOf_append_of_mem (hmem hc)]
      rw [firstsBy_concat]
      split
      · exact hkept
      · next hnew =>
          have ha : a ∉ l := fun ha => hnew (List.any_eq_true.2 ⟨a, ha, beq_self_eq_true _⟩)
          refine List.pairwise_append.2 ⟨hkept, List.pairwise_singleton _ _, fun b hb c hc => ?_⟩
          obtain rfl := List.mem_singleton.1 hc
          rw [List.idxOf_append_of_mem (hmem hb), List.idxOf_append_of_notMem ha]
          exact Nat.lt_of_lt_of_le (List.idxOf_lt_length_of_mem (hmem hb)) (Nat.le_add_right _ _)

end Firsts

/-! ### Duplicates -/

/-- In a list that names everything once, a new name comes last. -/
theorem eraseDups_concat {α : Type} [BEq α] [LawfulBEq α] (l : List α) (a : α) :
    (l ++ [a]).eraseDups = if l.contains a then l.eraseDups else l.eraseDups ++ [a] := by
  rw [List.eraseDups_append]
  unfold List.removeAll
  by_cases ha : a ∈ l <;> simp [ha, List.eraseDups_cons]

/-- To erase duplicates is to keep the first of every member. -/
theorem eraseDups_eq_firstsBy {α : Type} [BEq α] [LawfulBEq α] (l : List α) :
    l.eraseDups = firstsBy id l := by
  induction l using List.reverseRecOn with
  | nil => rfl
  | append_singleton l a ih =>
      rw [eraseDups_concat, firstsBy_concat, ih, ← List.any_beq']
      rfl

/-- Adding what is not there yet, member by member, erases duplicates. -/
theorem foldl_addNew {α : Type} [BEq α] [LawfulBEq α] (l : List α) :
    l.foldl (fun found a => if found.contains a then found else found ++ [a]) [] =
      l.eraseDups := by
  rw [eraseDups_eq_firstsBy, firstsBy]
  simp only [← List.any_beq']
  rfl

theorem nodup_eraseDups {α : Type} [BEq α] [LawfulBEq α] (l : List α) : l.eraseDups.Nodup := by
  rw [eraseDups_eq_firstsBy, ← List.map_id (firstsBy id l)]
  exact nodup_firstsBy id l

theorem eraseDups_sublist {α : Type} [BEq α] [LawfulBEq α] (l : List α) :
    l.eraseDups.Sublist l :=
  eraseDups_eq_firstsBy l ▸ firstsBy_sublist id l

theorem eraseDups_eq_self {α : Type} [BEq α] [LawfulBEq α] {l : List α} (h : l.Nodup) :
    l.eraseDups = l := by
  induction l using List.reverseRecOn with
  | nil => rfl
  | append_singleton l a ih =>
      obtain ⟨hl, -, hdisjoint⟩ := List.nodup_append'.1 h
      have ha : a ∉ l := fun ha => hdisjoint ha (List.mem_singleton_self a)
      rw [eraseDups_concat, if_neg (by simpa using ha), ih hl]

/-- Where the keys of some rows are first met tells their order in a table. -/
theorem pairwise_eraseDups {α : Type} [DecidableEq α] (l : List α) :
    l.eraseDups.Pairwise fun a b => l.idxOf a < l.idxOf b :=
  eraseDups_eq_firstsBy l ▸ pairwise_firstsBy id l

/-- Pairs of a list without repetitions are told by where they are first met. -/
theorem pairwise_eraseDups_iff {α : Type} [DecidableEq α] {l : List α} {P : α → α → Prop} :
    l.eraseDups.Pairwise P ↔ ∀ a ∈ l, ∀ b ∈ l, l.idxOf a < l.idxOf b → P a b := by
  constructor
  · intro h a ha b hb
    refine List.Pairwise.forall_of_forall_of_flip (R := fun a b => l.idxOf a < l.idxOf b → P a b)
      (fun c _ hlt => absurd hlt (Nat.lt_irrefl _)) ?_ ?_ (List.mem_eraseDups.2 ha)
      (List.mem_eraseDups.2 hb)
    · refine h.imp ?_
      exact fun hab _ => hab
    · exact (pairwise_eraseDups l).imp fun hab hlt => absurd hlt (Nat.lt_asymm hab)
  · intro h
    refine (pairwise_eraseDups l).imp_of_mem fun {a b} ha hb hlt => ?_
    exact h a (List.mem_eraseDups.1 ha) b (List.mem_eraseDups.1 hb) hlt

section Places

variable {α κ : Type} [DecidableEq κ] {f : α → κ} {m n : κ}

/-- What is left out does not change the order of two keys, if none of the second one is left
out. -/
theorem idxOf_map_lt_of_filter {q : α → Bool} {l : List α} (hn : ∀ a ∈ l, f a = n → q a = true)
    (h : ((l.filter q).map f).idxOf m < ((l.filter q).map f).idxOf n) :
    (l.map f).idxOf m < (l.map f).idxOf n := by
  induction l with
  | nil => exact h
  | cons a l ih =>
      have hrest := ih fun b hb => hn b (List.mem_cons_of_mem _ hb)
      rw [List.filter_cons] at h
      by_cases han : f a = n
      · simp [hn a List.mem_cons_self han, han] at h
      · by_cases ham : f a = m
        · simp [ham, ham ▸ han]
        · simp only [List.map_cons, List.idxOf_cons, beq_false_of_ne han, beq_false_of_ne ham,
            cond_false, Nat.add_lt_add_iff_right]
          refine hrest ?_
          split at h
          · simpa [List.idxOf_cons, beq_false_of_ne han, beq_false_of_ne ham] using h
          · exact h

theorem idxOf_lt_of_filter {q : κ → Bool} {l : List κ} (hn : q n = true)
    (h : (l.filter q).idxOf m < (l.filter q).idxOf n) : l.idxOf m < l.idxOf n := by
  have hplace := idxOf_map_lt_of_filter (f := id) (l := l) (m := m) (n := n)
    fun k _ hk => (congrArg q hk).trans hn
  rw [List.map_id, List.map_id] at hplace
  exact hplace h

variable {A B : List κ}

/-- What comes before a key of the first part is in the first part. -/
theorem idxOf_lt_of_append_left (hn : n ∈ A) (h : (A ++ B).idxOf m < (A ++ B).idxOf n) :
    m ∈ A ∧ A.idxOf m < A.idxOf n := by
  rw [List.idxOf_append_of_mem hn] at h
  by_cases hm : m ∈ A
  · rw [List.idxOf_append_of_mem hm] at h
    exact ⟨hm, h⟩
  · have hlength := List.idxOf_lt_length_of_mem hn
    rw [List.idxOf_append_of_notMem hm] at h
    omega

/-- What comes after a key that is not in the first part is not there either. -/
theorem idxOf_lt_of_append_right (hm : m ∉ A) (h : (A ++ B).idxOf m < (A ++ B).idxOf n) :
    n ∉ A ∧ B.idxOf m < B.idxOf n := by
  have hn : n ∉ A := fun hn => hm (idxOf_lt_of_append_left hn h).1
  rw [List.idxOf_append_of_notMem hm, List.idxOf_append_of_notMem hn] at h
  exact ⟨hn, Nat.lt_of_add_lt_add_left h⟩

end Places

variable {κ β : Type} [DecidableEq κ]

/-- Puts a value under a key, in place of the one that is there or at the end. -/
def upsert (k : κ) (b : β) : List (κ × β) → List (κ × β)
  | [] => [(k, b)]
  | (l, c) :: rest => if l = k then (l, b) :: rest else (l, c) :: upsert k b rest

/-- The table made of some rows. -/
def tabulate (rows : List (κ × β)) : List (κ × β) :=
  rows.foldl (fun table row => upsert row.1 row.2 table) []

theorem tabulate_concat (rows : List (κ × β)) (row : κ × β) :
    tabulate (rows ++ [row]) = upsert row.1 row.2 (tabulate rows) := by
  unfold tabulate
  rw [List.foldl_append]
  rfl

/-- A table has the keys of its rows in the order in which they are first met, each with the last of
its rows. -/
structure IsTable (rows table : List (κ × β)) : Prop where
  keys : table.map (·.1) = (rows.map (·.1)).eraseDups
  last : ∀ e ∈ table, rows.reverse.find? (·.1 == e.1) = some e

section IsTable

variable {rows rows' table : List (κ × β)} {e : κ × β}

theorem IsTable.mem_rows (h : IsTable rows table) (he : e ∈ table) : e ∈ rows :=
  List.mem_reverse.1 (List.mem_of_find?_eq_some (h.last e he))

theorem IsTable.mem_keys_iff (h : IsTable rows table) {k : κ} :
    k ∈ table.map (·.1) ↔ k ∈ rows.map (·.1) := by
  rw [h.keys, List.mem_eraseDups]

theorem IsTable.nodup (h : IsTable rows table) : (table.map (·.1)).Nodup := by
  rw [h.keys]
  exact nodup_eraseDups _

/-- Under a key of the later rows there is one of them. -/
theorem IsTable.mem_right (h : IsTable (rows ++ rows') table) (he : e ∈ table)
    (hkey : e.1 ∈ rows'.map (·.1)) : e ∈ rows' := by
  obtain ⟨row, hrow, hname⟩ := List.mem_map.1 hkey
  have hsome : (rows'.reverse.find? (·.1 == e.1)).isSome :=
    List.find?_isSome.2 ⟨row, List.mem_reverse.2 hrow, beq_iff_eq.2 hname⟩
  obtain ⟨f, hf⟩ := Option.isSome_iff_exists.1 hsome
  have hlast := h.last e he
  rw [List.reverse_append, List.find?_append, hf, Option.some_or] at hlast
  exact List.mem_reverse.1 (Option.some.inj hlast ▸ List.mem_of_find?_eq_some hf)

end IsTable

theorem keys_upsert (k : κ) (b : β) (table : List (κ × β)) :
    (upsert k b table).map (·.1) =
      if k ∈ table.map (·.1) then table.map (·.1) else table.map (·.1) ++ [k] := by
  induction table with
  | nil => rfl
  | cons e rest ih =>
      obtain ⟨l, c⟩ := e
      rw [upsert]
      by_cases hl : l = k
      · simp [hl]
      · rw [if_neg hl, List.map_cons, ih]
        simp only [List.map_cons, List.mem_cons, Ne.symm hl, false_or]
        split <;> rfl

/-- Besides the new row, a table keeps its rows of other keys. -/
theorem mem_upsert {k : κ} {b : β} {table : List (κ × β)} (h : (table.map (·.1)).Nodup)
    {e : κ × β} (he : e ∈ upsert k b table) : e = (k, b) ∨ (e ∈ table ∧ e.1 ≠ k) := by
  induction table with
  | nil => exact .inl (List.mem_singleton.1 he)
  | cons f rest ih =>
      obtain ⟨l, c⟩ := f
      obtain ⟨hl, hrest⟩ := List.nodup_cons.1 h
      rw [upsert] at he
      split at he
      · next hk =>
          subst hk
          rcases List.mem_cons.1 he with rfl | he
          · exact .inl rfl
          · have hmem : e.1 ∈ rest.map (·.1) := List.mem_map_of_mem he
            exact .inr ⟨List.mem_cons_of_mem _ he, fun heq => hl (heq ▸ hmem)⟩
      · next hk =>
          rcases List.mem_cons.1 he with rfl | he
          · exact .inr ⟨List.mem_cons_self, hk⟩
          · exact (ih hrest he).imp_right fun h => ⟨List.mem_cons_of_mem _ h.1, h.2⟩

theorem isTable_tabulate (rows : List (κ × β)) : IsTable rows (tabulate rows) := by
  induction rows using List.reverseRecOn with
  | nil => exact ⟨rfl, fun _ he => nomatch he⟩
  | append_singleton rows row ih =>
      rw [tabulate_concat]
      constructor
      · rw [keys_upsert, ih.keys, List.map_append, List.map_singleton, eraseDups_concat]
        simp only [List.mem_eraseDups, List.contains_iff_mem]
      · intro e he
        rw [List.reverse_append, List.reverse_singleton, List.singleton_append, List.find?_cons]
        rcases mem_upsert ih.nodup he with rfl | ⟨he, hne⟩
        · simp
        · rw [beq_false_of_ne (Ne.symm hne)]
          exact ih.last e he

end OpenApiClient
