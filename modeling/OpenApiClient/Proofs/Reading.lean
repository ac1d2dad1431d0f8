import OpenApiClient.Proofs.Grammar

/-!
# What is read as JSON

The reader gives a value exactly if the text is JSON, and then the value that the text stands for.
It stops at an integer with too many digits exactly if the text is JSON up to such an integer,
whatever follows it.  One induction on the grammar shows that the reader follows it, and one on the
fuel of the reader that it reads nothing else.
-/

namespace OpenApiClient.Json

/-! ### What may follow -/

/-- What may stand behind a value. -/
def Follows (rest : List Char) : Prop :=
  ∀ a ∈ rest.head?, isSpace a = true ∨ a = ',' ∨ a = ']' ∨ a = '}'

section Follow

theorem isDigit_of_isSpace {a : Char} (h : isSpace a = true) :
    isDigit a = false ∧ a ≠ '.' ∧ a ≠ 'e' ∧ a ≠ 'E' := by
  simp only [isSpace, Bool.or_eq_true, decide_eq_true_eq] at h
  rcases h with ((rfl | rfl) | rfl) | rfl <;> decide

variable {rest cs : List Char} {v : Value}

/-- Nothing that may follow a value would make a numeral longer. -/
theorem Follows.stops (h : Follows rest) : Stops rest := by
  have hletter (a : Char) (ha : isSpace a = true ∨ a = ',' ∨ a = ']' ∨ a = '}') :
      isDigit a = false ∧ a ≠ '.' ∧ a ≠ 'e' ∧ a ≠ 'E' := by
    rcases ha with ha | rfl | rfl | rfl
    · exact isDigit_of_isSpace ha
    all_goals decide
  cases rest with
  | nil =>
      refine ⟨nofun, fun ds p hp hprefix => ?_, fun x p hp hprefix => ?_⟩
      · obtain rfl := List.prefix_nil.1 hprefix
        cases hp
      · obtain rfl := List.prefix_nil.1 hprefix
        cases hp
  | cons a rest =>
      obtain ⟨hdigit, hpoint, hsmall, hcapital⟩ := hletter a (h a rfl)
      refine ⟨fun d hd => Option.some.inj hd ▸ hdigit, fun ds p hp hprefix => ?_,
        fun x p hp hprefix => ?_⟩
      · cases hp
        exact hpoint (List.cons_prefix_cons.1 hprefix).1.symm
      · obtain ⟨e, tail, rfl, he, -⟩ := hp.exists_cons
        obtain rfl := (List.cons_prefix_cons.1 hprefix).1
        exact he.elim hsmall hcapital

theorem AllSpace.follows (h : AllSpace cs) (hrest : Follows rest) : Follows (cs ++ rest) := by
  cases cs with
  | nil => exact hrest
  | cons a cs => exact fun b hb => .inl (Option.some.inj hb ▸ h a List.mem_cons_self)

theorem follows_nil : Follows [] := nofun

theorem follows_cons {a : Char} (h : a = ',' ∨ a = ']' ∨ a = '}') (rest : List Char) :
    Follows (a :: rest) := fun _ hb => .inr (Option.some.inj hb ▸ h)

theorem IsNumeral.exists_cons {n : Numeral} (h : IsNumeral n cs) :
    ∃ a tail, cs = a :: tail ∧
      (isDigit a = true ∨ a = '-' ∧ ∃ d ∈ tail.head?, isDigit d = true) := by
  have hwhole {ds : List Char} (h : IsWhole ds) (rest : List Char) :
      ∃ d tail, ds ++ rest = d :: tail ∧ isDigit d = true := by
    cases h with
    | zero => exact ⟨_, _, rfl, rfl⟩
    | digits h => exact ⟨_, _, rfl, h.all _ List.mem_cons_self⟩
  cases h with
  | @intro point power whole =>
      obtain ⟨d, tail, heq, hd⟩ := hwhole whole (point ++ power)
      rw [heq]
      cases n.negative with
      | true => exact ⟨'-', d :: tail, rfl, .inr ⟨rfl, d, rfl, hd⟩⟩
      | false => exact ⟨d, tail, rfl, .inl hd⟩

/-- A numeral begins like no text, list or object, and closes none. -/
theorem IsNumeral.head_ne {n : Numeral} (h : IsNumeral n cs) :
    ∃ a tail, cs = a :: tail ∧ isSpace a = false ∧ a ∉ ['"', '[', '{'] ∧ a ≠ ']' ∧
      a ≠ '\ufeff' := by
  obtain ⟨a, tail, rfl, ha⟩ := h.exists_cons
  refine ⟨a, tail, rfl, ?_⟩
  rcases ha with ha | ⟨rfl, -⟩
  · have hother : ∀ b ∈ ['"', '[', '{', ']', '\ufeff'], isDigit b = false := by
      simp only [List.forall_mem_cons, List.not_mem_nil, false_implies, implies_true, and_true]
      decide
    have hne (b : Char) (hb : b ∈ ['"', '[', '{', ']', '\ufeff']) : a ≠ b := by
      rintro rfl
      rw [hother a hb] at ha
      cases ha
    refine ⟨Bool.eq_false_iff.2 fun hspace => ?_, fun hmem => hne a (by simp_all) rfl,
      hne _ (by simp), hne _ (by simp)⟩
    rw [(isDigit_of_isSpace hspace).1] at ha
    cases ha
  · decide

theorem head_ne_of_mem_words {w : String} {s : Scalar} (h : (w, s) ∈ words) :
    ∃ a tail, w.toList = a :: tail ∧ isSpace a = false ∧ a ∉ ['"', '[', '{'] ∧ a ≠ ']' ∧
      a ≠ '\ufeff' := by
  have hword : ∀ w ∈ words, w.1.toList.head?.any (fun a =>
      isSpace a = false ∧ a ∉ ['"', '[', '{'] ∧ a ≠ ']' ∧ a ≠ '\ufeff') = true := by decide
  obtain ⟨a, hhead, ha⟩ := (Option.any_eq_true _ _).1 (hword _ h)
  obtain ⟨tail, htail⟩ := List.head?_eq_some_iff.1 hhead
  exact ⟨a, tail, htail, of_decide_eq_true ha⟩

/-- A value begins with a character that is no blank and closes no list. -/
theorem IsValue.exists_cons (h : IsValue cs v) :
    ∃ a tail, cs = a :: tail ∧ isSpace a = false ∧ a ≠ ']' ∧ a ≠ '\ufeff' := by
  cases h with
  | word hw =>
      obtain ⟨a, tail, htail, hspace, -, ha⟩ := head_ne_of_mem_words hw
      exact ⟨a, tail, htail, hspace, ha⟩
  | number hn =>
      obtain ⟨a, tail, htail, hspace, -, ha⟩ := hn.head_ne
      exact ⟨a, tail, htail, hspace, ha⟩
  | text => exact ⟨_, _, rfl, by decide⟩
  | emptyList => exact ⟨_, _, rfl, by decide⟩
  | list => exact ⟨_, _, rfl, by decide⟩
  | emptyObject => exact ⟨_, _, rfl, by decide⟩
  | object => exact ⟨_, _, rfl, by decide⟩

theorem Overflows.exists_cons (h : Overflows cs) :
    ∃ a tail, cs = a :: tail ∧ isSpace a = false ∧ a ≠ ']' ∧ a ≠ '\ufeff' := by
  cases h with
  | number hn =>
      obtain ⟨a, tail, rfl, hspace, -, ha⟩ := hn.head_ne
      exact ⟨a, _, rfl, hspace, ha⟩
  | list => exact ⟨_, _, rfl, by decide⟩
  | object => exact ⟨_, _, rfl, by decide⟩

end Follow

/-! ### Single tokens -/

section Tokens

variable {fuel : Nat} {c c' : Cursor} {cs rest space : List Char}

theorem rest_skip (h : c.rest = cs ++ rest) : (c.skip cs.length).rest = rest := by
  rw [Cursor.skip, h]
  exact List.drop_left

theorem exists_skipSpace (c : Cursor) :
    ∃ space, AllSpace space ∧ c.rest = space ++ c.skipSpace.rest := by
  refine ⟨c.rest.takeWhile isSpace, fun a ha => (List.all_eq_true.1 List.all_takeWhile) a ha, ?_⟩
  exact (List.prefix_iff_eq_append.1 (List.takeWhile_prefix isSpace)).symm

/-- Where no text, list or object begins, a word or a number is read. -/
theorem readValue_scalar (h : ∀ a ∈ c.rest.head?, a ∉ ['"', '[', '{']) :
    readValue (fuel + 1) c = c.readScalar := by
  rw [readValue.eq_def]
  dsimp only
  split
  · next hrest => exact absurd (by simp) (h '"' (by rw [hrest]; rfl))
  · next hrest => exact absurd (by simp) (h '{' (by rw [hrest]; rfl))
  · next hrest => exact absurd (by simp) (h '[' (by rw [hrest]; rfl))
  · rfl

theorem words_find?_append {w : String} {s : Scalar} (h : (w, s) ∈ words) (rest : List Char) :
    (words.find? fun w' => Text.startsWith (w.toList ++ rest) w'.1.toList) = some (w, s) := by
  simp only [words, List.mem_cons, List.not_mem_nil, or_false, Prod.mk.injEq] at h
  rcases h with ⟨rfl, rfl⟩ | ⟨rfl, rfl⟩ | ⟨rfl, rfl⟩ | ⟨rfl, rfl⟩ | ⟨rfl, rfl⟩ | ⟨rfl, rfl⟩ <;> rfl

/-- No word begins like a numeral. -/
theorem words_find?_numeral {n : Numeral} (h : IsNumeral n cs) (rest : List Char) :
    (words.find? fun w => Text.startsWith (cs ++ rest) w.1.toList) = none := by
  have hword : ∀ w ∈ words, w.1.toList.head?.any (fun a => isDigit a = false ∧
      (a = '-' → (w.1.toList.drop 1).head? = some 'I')) = true := by decide
  rw [List.find?_eq_none]
  intro w hw hstarts
  obtain ⟨a, tail, rfl, ha⟩ := h.exists_cons
  obtain ⟨b, hhead, hfirst⟩ := (Option.any_eq_true _ _).1 (hword w hw)
  obtain ⟨word, hcons⟩ := List.head?_eq_some_iff.1 hhead
  rw [hcons] at hfirst
  obtain ⟨hb, hminus⟩ := of_decide_eq_true hfirst
  rw [Text.startsWith, List.isPrefixOf_iff_prefix, hcons] at hstarts
  obtain ⟨rfl, hprefix⟩ := List.cons_prefix_cons.1 hstarts
  rcases ha with ha | ⟨rfl, d, hd, hdigit⟩
  · rw [hb] at ha
    cases ha
  · obtain ⟨word, rfl⟩ := List.head?_eq_some_iff.1 (hminus rfl)
    obtain ⟨tail, rfl⟩ := List.head?_eq_some_iff.1 hd
    obtain rfl := (List.cons_prefix_cons.1 hprefix).1
    cases hdigit

theorem readScalar_word {w : String} {s : Scalar} (h : (w, s) ∈ words)
    (hc : c.rest = w.toList ++ rest) : c.readScalar = .ok (.scalar s, c.skip w.length) := by
  rw [Cursor.readScalar, hc, words_find?_append h]

theorem readScalar_numeral {n : Numeral} (h : IsNumeral n cs) (hrest : Stops rest)
    (hc : c.rest = cs ++ rest) {r : Except Stop Value} (hr : n.value = r) :
    c.readScalar = r.map fun v => (v, c.skip cs.length) := by
  rw [Cursor.readScalar, hc, words_find?_numeral h, numeral?_append h hrest]
  simp only [hr]
  cases r <;> rfl

theorem readValue_numeral {n : Numeral} (h : IsNumeral n cs) (hrest : Stops rest)
    (hc : c.rest = cs ++ rest) {r : Except Stop Value} (hr : n.value = r) :
    readValue (fuel + 1) c = r.map fun v => (v, c.skip cs.length) := by
  obtain ⟨a, tail, htail, -, ha, -⟩ := h.head_ne
  rw [readValue_scalar, readScalar_numeral h hrest hc hr]
  rw [hc, htail]
  exact fun b hb => Option.some.inj hb ▸ ha

theorem Numeral.exists_scalar {n : Numeral} {v : Value} (h : n.value = .ok v) :
    ∃ s, v = .scalar s := by
  rw [Numeral.value] at h
  split at h
  · split at h
    · cases h
    · exact ⟨_, (Except.ok.inj h).symm⟩
  · exact ⟨_, (Except.ok.inj h).symm⟩

/-- What is read without parts is a word or a number. -/
theorem exists_of_readScalar {v : Value} (h : c.readScalar = .ok (v, c')) :
    ∃ cs, c.rest = cs ++ c'.rest ∧ IsValue cs v.bare := by
  rw [Cursor.readScalar] at h
  split at h
  · next w s hw =>
      obtain ⟨rfl, rfl⟩ := Prod.mk.inj (Except.ok.inj h)
      have hstarts := List.find?_some hw
      rw [Text.startsWith, List.isPrefixOf_iff_prefix] at hstarts
      obtain ⟨rest, hrest⟩ := hstarts
      refine ⟨w.toList, ?_, ?_⟩
      · rw [← String.length_toList, rest_skip hrest.symm, hrest]
      · rw [Value.bare, Value.rename_scalar]
        exact .word (List.mem_of_find?_eq_some hw)
  · split at h
    · cases h
    · next n width hn =>
        obtain ⟨cs, rest, hrest, rfl, hnumeral, -⟩ := exists_of_numeral? hn
        cases hv : n.value with
        | error stop => simp [hv] at h
        | ok w =>
            rw [hv] at h
            obtain ⟨rfl, rfl⟩ := Prod.mk.inj (Except.ok.inj h)
            obtain ⟨s, rfl⟩ := Numeral.exists_scalar hv
            refine ⟨cs, by rw [rest_skip hrest, hrest], ?_⟩
            rw [Value.bare, Value.rename_scalar]
            exact .number hnumeral hv

theorem Numeral.value_eq_error_iff {n : Numeral} {stop : Stop} :
    n.value = .error stop ↔ stop = .tooManyDigits ∧ n.fraction = none ∧ n.exponent = none ∧
      Text.digitLimit < n.whole.length := by
  obtain ⟨negative, whole, fraction, exponent⟩ := n
  cases fraction with
  | some f => simp [Numeral.value]
  | none =>
      cases exponent with
      | some x => simp [Numeral.value]
      | none =>
          by_cases hlimit : Text.digitLimit < whole.length
          · simp [Numeral.value, hlimit, eq_comm]
          · simp [Numeral.value, hlimit]

/-- A number with too many digits is an integer with too many digits. -/
theorem overflows_of_readScalar (h : c.readScalar = .error .tooManyDigits) : Overflows c.rest := by
  rw [Cursor.readScalar] at h
  split at h
  · cases h
  · split at h
    · cases h
    · next n width hn =>
        obtain ⟨cs, rest, hrest, rfl, hnumeral, hstops⟩ := exists_of_numeral? hn
        cases hv : n.value with
        | ok w => simp [hv] at h
        | error stop =>
            obtain ⟨-, hfraction, hexponent, hlimit⟩ := Numeral.value_eq_error_iff.1 hv
            rw [hrest]
            have hzero : n.whole ≠ ['0'] := fun hzero => by
              rw [hzero] at hlimit
              exact absurd hlimit (by decide)
            exact .number hnumeral hfraction hexponent hlimit (hstops hzero hfraction hexponent)

/-- A text is read when its opening quote was passed. -/
theorem readText_append {s : String} (h : IsText cs s.toList) (hfuel : cs.length < fuel)
    (hc : c.rest = cs ++ '"' :: rest) : ∃ c', c.readText fuel = .ok (s, c') ∧ c'.rest = rest := by
  obtain ⟨position, hread⟩ := textFrom_append h (c.position - 1) c.position [] rest hfuel
  refine ⟨{ c with rest, position }, ?_, rfl⟩
  rw [Cursor.readText, hc, hread]
  simp

theorem exists_of_readText {s : String} (h : c.readText fuel = .ok (s, c')) :
    ∃ cs, c.rest = cs ++ '"' :: c'.rest ∧ IsText cs s.toList := by
  rw [Cursor.readText] at h
  split at h
  · cases h
  · next s' rest position hread =>
      obtain ⟨rfl, rfl⟩ := Prod.mk.inj (Except.ok.inj h)
      obtain ⟨cs, t, hcs, htext, rfl⟩ := exists_of_textFrom hread
      exact ⟨cs, hcs, by simpa using htext⟩

theorem readText_ne_tooManyDigits : c.readText fuel ≠ .error .tooManyDigits := by
  rw [Cursor.readText]
  split
  · next stop hread =>
      intro h
      rw [Except.error.inj h] at hread
      exact textFrom_ne_tooManyDigits _ _ _ _ _ hread
  · simp

end Tokens

/-! ### The reader follows the grammar -/

section Completeness

variable {fuel : Nat} {c c' : Cursor} {cs rest space : List Char} {v : Value}

/-- The reader takes the characters for the value, wherever a value may end behind them. -/
def ReadsAs (cs : List Char) (v : Value) : Prop :=
  ∀ (fuel : Nat) (c : Cursor) (rest : List Char), 2 * cs.length ≤ fuel → Follows rest →
    c.rest = cs ++ rest →
    ∃ w c', readValue fuel c = .ok (w, c') ∧ w.bare = v ∧ c'.rest = rest

/-- A part of a value that the reader takes for what it stands for. -/
structure Item.IsRead (i : Item) : Prop where
  spaced : i.IsSpaced
  value : IsValue i.text i.value
  reads : ReadsAs i.text i.value

/-- An item is read with the blanks around it, up to the mark behind it. -/
theorem Item.IsRead.readValue {i : Item} (h : i.IsRead) (hfuel : 2 * i.text.length ≤ fuel)
    {mark : Char} (hmark : mark = ',' ∨ mark = ']' ∨ mark = '}')
    (hc : c.rest = i.written ++ mark :: rest) :
    ∃ w c', Json.readValue fuel c.skipSpace = .ok (w, c') ∧ w.bare = i.value ∧
      c'.skipSpace.rest = mark :: rest := by
  obtain ⟨a, tail, htext, ha, -⟩ := h.value.exists_cons
  have hspace : isSpace mark = false := by
    rcases hmark with rfl | rfl | rfl <;> rfl
  have hstart : c.skipSpace.rest = i.text ++ (i.after ++ mark :: rest) := by
    rw [htext]
    refine rest_skipSpace h.spaced.before ha ?_
    rw [hc, Item.written, htext]
    simp
  obtain ⟨w, c', hread, hbare, hrest⟩ :=
    h.reads fuel _ _ hfuel (h.spaced.after.follows (follows_cons hmark rest)) hstart
  exact ⟨w, c', hread, hbare, rest_skipSpace h.spaced.after hspace hrest⟩

section Separated

variable {α : Type} (written : α → List Char)

theorem separated_cons (part : α) (parts : List α) :
    separated written (part :: parts) = written part ++ ',' :: separated written parts := by
  simp [separated]

theorem length_le_separated (parts : List α) : parts.length ≤ (separated written parts).length := by
  induction parts with
  | nil => exact Nat.le_refl 0
  | cons part parts ih =>
      rw [separated_cons, List.length_append, List.length_cons, List.length_cons]
      omega

end Separated

theorem Item.length_text_le (i : Item) : i.text.length ≤ i.written.length := by
  rw [Item.written, List.length_append, List.length_append]
  omega

/-- Items with commas behind them are read one after the other. -/
theorem readItems_separated {items : List Item} (h : ∀ i ∈ items, i.IsRead) (read : List Value)
    (hfuel : 2 * (separated Item.written items).length ≤ fuel + items.length)
    (hc : c.rest = separated Item.written items ++ rest) :
    ∃ (ws : List Value) (c' : Cursor), readItems (fuel + items.length) read c.skipSpace =
        readItems fuel (ws.reverse ++ read) c'.skipSpace ∧
      ws.map Value.bare = items.map (·.value) ∧ c'.rest = rest := by
  induction items generalizing read c with
  | nil => exact ⟨[], c, rfl, rfl, hc⟩
  | cons i items ih =>
      rw [separated_cons, List.length_append, List.length_cons, List.length_cons] at hfuel
      rw [separated_cons, List.append_assoc, List.cons_append] at hc
      have hlength := i.length_text_le
      obtain ⟨w, c₁, hread, hbare, hcomma⟩ := (h i List.mem_cons_self).readValue
        (show _ ≤ fuel + items.length by omega) (.inl rfl) hc
      obtain ⟨ws, c', hreads, hbares, hrest⟩ := ih (fun i' hi' => h i' (List.mem_cons_of_mem i hi'))
        (w :: read) (by omega) (rest_skip_one hcomma)
      refine ⟨w :: ws, c', ?_, by rw [List.map_cons, List.map_cons, hbare, hbares], hrest⟩
      rw [List.length_cons, ← Nat.add_assoc, readItems, hread]
      simp [hcomma, hreads]

/-- The items of a list are read up to its closing bracket. -/
theorem readItems_list {items : List Item} {last : Item} (h : ∀ i ∈ items ++ [last], i.IsRead)
    (hfuel : 2 * (separated Item.written items ++ last.written).length < fuel)
    (hc : c.rest = separated Item.written items ++ (last.written ++ ']' :: rest)) :
    ∃ (ws : List Value) (c' : Cursor), readItems fuel [] c.skipSpace = .ok (.seq ws, c') ∧
      ws.map Value.bare = (items ++ [last]).map (·.value) ∧ c'.rest = rest := by
  have hitems := length_le_separated Item.written items
  have hlength := last.length_text_le
  rw [List.length_append] at hfuel
  obtain ⟨fuel, rfl⟩ : ∃ n, fuel = n + 1 + items.length := ⟨fuel - items.length - 1, by omega⟩
  obtain ⟨ws, c₁, hreads, hbares, hrest⟩ :=
    readItems_separated (fun i hi => h i (List.mem_append_left [last] hi)) []
      (show _ ≤ fuel + 1 + _ by omega) hc
  obtain ⟨w, c₂, hread, hbare, hclose⟩ :=
    (h last (List.mem_append_right items List.mem_cons_self)).readValue
      (show _ ≤ fuel by omega) (.inr (.inl rfl)) hrest
  refine ⟨ws ++ [w], c₂.skipSpace.skip 1, ?_, by simp [hbares, hbare], rest_skip_one hclose⟩
  rw [hreads, readItems, hread]
  simp [hclose]

/-! ### Entries -/

/-- A name is read up to the colon behind it. -/
theorem Label.IsSpelled.readText {l : Label} (h : l.IsSpelled) (hfuel : l.text.length < fuel)
    (hc : c.rest = l.written ++ rest) :
    ∃ c', c.skipSpace.rest.head? = some '"' ∧
      (c.skipSpace.skip 1).readText fuel = .ok (l.name, c') ∧
      c'.skipSpace.rest = ':' :: rest := by
  have hstart : c.skipSpace.rest = '"' :: (l.text ++ '"' :: (l.after ++ ':' :: rest)) := by
    refine rest_skipSpace h.before rfl (hc.trans ?_)
    simp [Label.written]
  obtain ⟨c', hread, hrest⟩ := readText_append h.text hfuel (rest_skip_one hstart)
  exact ⟨c', by rw [hstart]; rfl, hread, rest_skipSpace h.after rfl hrest⟩

/-- The entries without their origins. -/
def bareEntries (es : Value.Entries) : Value.Entries := es.map fun e => (e.1, e.2.bare)

theorem bareEntries_insert (k : Scalar) (v : Value) (es : Value.Entries) :
    bareEntries (Value.insert k v es) = Value.insert k v.bare (bareEntries es) := by
  induction es with
  | nil => rfl
  | cons e es ih =>
      obtain ⟨l, w⟩ := e
      have hcons (e : Scalar × Value) (es : Value.Entries) :
          bareEntries (e :: es) = (e.1, e.2.bare) :: bareEntries es := rfl
      rw [Value.insert, hcons, Value.insert]
      split
      · rfl
      · rw [hcons, ih]

/-- Entries put in one after the other. -/
def putAll (es fs : Value.Entries) : Value.Entries :=
  fs.foldl (fun es e => Value.insert e.1 e.2 es) es

structure Member.IsRead (m : Member) : Prop where
  spelled : m.label.IsSpelled
  item : m.item.IsRead

/-- An entry is read up to the mark behind it. -/
theorem Member.IsRead.readEntries {m : Member} (h : m.IsRead)
    (hfuel : 2 * m.written.length ≤ fuel) {mark : Char} (hmark : mark = ',' ∨ mark = '}')
    (hc : c.rest = m.written ++ mark :: rest) (origin : Nat) (es : Value.Entries) :
    ∃ (w : Value) (c' : Cursor), w.bare = m.item.value ∧ c'.rest = rest ∧
      Json.readEntries (fuel + 1) origin es c.skipSpace =
        if mark = '}' then .ok (.map origin (Value.insert (.str m.label.name) w es), c')
        else Json.readEntries fuel origin (Value.insert (.str m.label.name) w es) c'.skipSpace := by
  have hlength := m.item.length_text_le
  have hwritten : m.label.text.length + m.item.written.length < m.written.length := by
    simp [Member.written, Label.written]
    omega
  rw [Member.written, List.append_assoc] at hc
  obtain ⟨c₁, hquote, hname, hcolon⟩ := h.spelled.readText (show _ < fuel by omega) hc
  obtain ⟨w, c₂, hread, hbare, hrest⟩ := h.item.readValue (show _ ≤ fuel by omega)
    (by rcases hmark with rfl | rfl <;> simp) (rest_skip_one hcolon)
  refine ⟨w, c₂.skipSpace.skip 1, hbare, rest_skip_one hrest, ?_⟩
  rcases hmark with rfl | rfl <;> simp [Json.readEntries, hquote, hname, hcolon, hread, hrest]

/-- Entries with commas behind them are read one after the other. -/
theorem readEntries_separated {members : List Member} (h : ∀ m ∈ members, m.IsRead) (origin : Nat)
    (es : Value.Entries)
    (hfuel : 2 * (separated Member.written members).length ≤ fuel + members.length)
    (hc : c.rest = separated Member.written members ++ rest) :
    ∃ (es' : Value.Entries) (c' : Cursor),
      readEntries (fuel + members.length) origin es c.skipSpace =
        readEntries fuel origin es' c'.skipSpace ∧
      bareEntries es' = putAll (bareEntries es) (members.map Member.entry) ∧ c'.rest = rest := by
  induction members generalizing es c with
  | nil => exact ⟨es, c, rfl, rfl, hc⟩
  | cons m members ih =>
      rw [separated_cons, List.length_append, List.length_cons, List.length_cons] at hfuel
      rw [separated_cons, List.append_assoc, List.cons_append] at hc
      obtain ⟨w, c₁, hbare, hrest, hread⟩ := (h m List.mem_cons_self).readEntries
        (show _ ≤ fuel + members.length by omega) (.inl rfl) hc origin es
      obtain ⟨es', c', hreads, hbares, hend⟩ := ih
        (fun m' hm' => h m' (List.mem_cons_of_mem m hm'))
        (Value.insert (.str m.label.name) w es) (by omega) hrest
      refine ⟨es', c', ?_, ?_, hend⟩
      · rw [List.length_cons, ← Nat.add_assoc, hread, if_neg (by decide), hreads]
      · rw [hbares, bareEntries_insert, hbare]
        rfl

/-- The entries of an object are read up to its closing brace. -/
theorem readEntries_object {members : List Member} {last : Member}
    (h : ∀ m ∈ members ++ [last], m.IsRead) (origin : Nat)
    (hfuel : 2 * (separated Member.written members ++ last.written).length < fuel)
    (hc : c.rest = separated Member.written members ++ (last.written ++ '}' :: rest)) :
    ∃ (es : Value.Entries) (c' : Cursor),
      readEntries fuel origin [] c.skipSpace = .ok (.map origin es, c') ∧
      bareEntries es = Value.ofPairs ((members ++ [last]).map Member.entry) ∧ c'.rest = rest := by
  have hmembers := length_le_separated Member.written members
  rw [List.length_append] at hfuel
  obtain ⟨fuel, rfl⟩ : ∃ n, fuel = n + 1 + members.length := ⟨fuel - members.length - 1, by omega⟩
  obtain ⟨es, c₁, hreads, hbares, hrest⟩ :=
    readEntries_separated (fun m hm => h m (List.mem_append_left [last] hm)) origin []
      (show _ ≤ fuel + 1 + _ by omega) hc
  obtain ⟨w, c₂, hbare, hend, hread⟩ :=
    (h last (List.mem_append_right members List.mem_cons_self)).readEntries
      (show _ ≤ fuel by omega) (.inr rfl) hrest origin es
  refine ⟨Value.insert (.str last.label.name) w es, c₂, ?_, ?_, hend⟩
  · rw [hreads, hread, if_pos rfl]
  · rw [bareEntries_insert, hbares, hbare, Value.ofPairs, List.map_append, List.foldl_append]
    rfl

/-! ### Values -/

theorem bare_map (origin : Nat) (es : Value.Entries) :
    (Value.map origin es).bare = .map 0 (bareEntries es) := by
  rw [Value.bare, Value.rename_map]
  rfl

theorem bare_seq (vs : List Value) : (Value.seq vs).bare = .seq (vs.map Value.bare) := by
  rw [Value.bare, Value.rename_seq]
  rfl

theorem Item.IsRead.exists_skipSpace {i : Item} (h : i.IsRead) (hc : c.rest = i.written ++ rest) :
    ∃ a tail, c.skipSpace.rest = a :: tail ∧ a ≠ ']' := by
  obtain ⟨a, tail, htext, ha, hne, -⟩ := h.value.exists_cons
  refine ⟨a, tail ++ (i.after ++ rest), rest_skipSpace h.spaced.before ha (hc.trans ?_), hne⟩
  simp [Item.written, htext]

theorem Label.IsSpelled.skipSpace {l : Label} (h : l.IsSpelled) (hc : c.rest = l.written ++ rest) :
    c.skipSpace.rest = '"' :: (l.text ++ '"' :: (l.after ++ ':' :: rest)) :=
  rest_skipSpace h.before rfl (hc.trans (by simp [Label.written]))

/-- Items with commas behind them close no list. -/
theorem exists_skipSpace_items {items : List Item} (h : ∀ i ∈ items, i.IsRead)
    (hc : c.rest = separated Item.written items ++ rest)
    (hrest : items = [] → ∃ a tail, c.skipSpace.rest = a :: tail ∧ a ≠ ']') :
    ∃ a tail, c.skipSpace.rest = a :: tail ∧ a ≠ ']' := by
  cases items with
  | nil => exact hrest rfl
  | cons i items =>
      rw [separated_cons, List.append_assoc] at hc
      exact (h i List.mem_cons_self).exists_skipSpace hc

/-- Entries with commas behind them begin with a quote, if what follows them does. -/
theorem exists_skipSpace_members {members : List Member} (h : ∀ m ∈ members, m.label.IsSpelled)
    (hc : c.rest = separated Member.written members ++ rest)
    (hrest : members = [] → ∃ tail, c.skipSpace.rest = '"' :: tail) :
    ∃ tail, c.skipSpace.rest = '"' :: tail := by
  cases members with
  | nil => exact hrest rfl
  | cons m members =>
      rw [separated_cons, Member.written, List.append_assoc, List.append_assoc] at hc
      exact ⟨_, (h m List.mem_cons_self).skipSpace hc⟩

/-- A list that is not closed at once is read item by item. -/
theorem readValue_items (hc : c.rest = '[' :: rest)
    (h : ∃ a tail, (c.skip 1).skipSpace.rest = a :: tail ∧ a ≠ ']') :
    readValue (fuel + 1) c = readItems fuel [] (c.skip 1).skipSpace := by
  obtain ⟨a, tail, hstart, ha⟩ := h
  rw [readValue_bracket hc, hstart, if_neg (by simpa using ha)]

/-- The place behind the brace that opens an object. -/
def Cursor.inside (c : Cursor) : Cursor := { c.skip 1 with origin := c.origin + 1 }

theorem Cursor.rest_inside {a : Char} (hc : c.rest = a :: rest) : c.inside.rest = rest :=
  rest_skip_one hc

/-- An object in which a name stands is read entry by entry. -/
theorem readValue_entries (hc : c.rest = '{' :: rest)
    (h : ∃ tail, c.inside.skipSpace.rest = '"' :: tail) :
    readValue (fuel + 1) c = readEntries fuel c.origin [] c.inside.skipSpace := by
  obtain ⟨tail, hstart⟩ := h
  have hopen : c.inside.skipSpace.rest.head? ≠ some '}' := by
    rw [hstart]
    simp
  rw [readValue_brace hc]
  exact if_neg hopen

/-- A value has a character, so that its reader has a step. -/
theorem readsAs_of_succ (hcs : 0 < cs.length)
    (h : ∀ (fuel : Nat) (c : Cursor) (rest : List Char), 2 * cs.length ≤ fuel + 1 → Follows rest →
      c.rest = cs ++ rest →
      ∃ w c', readValue (fuel + 1) c = .ok (w, c') ∧ w.bare = v ∧ c'.rest = rest) :
    ReadsAs cs v := by
  intro fuel c rest hfuel hrest hc
  obtain ⟨fuel, rfl⟩ : ∃ n, fuel = n + 1 := ⟨fuel - 1, by omega⟩
  exact h fuel c rest hfuel hrest hc

theorem readsAs_word {w : String} {s : Scalar} (h : (w, s) ∈ words) :
    ReadsAs w.toList (.scalar s) := by
  obtain ⟨a, tail, htail, -, ha, -⟩ := head_ne_of_mem_words h
  refine readsAs_of_succ (by simp [htail]) fun fuel c rest _ _ hc => ?_
  refine ⟨.scalar s, c.skip w.length, ?_, Value.rename_scalar _ s, ?_⟩
  · rw [readValue_scalar, readScalar_word h hc]
    rw [hc, htail]
    exact fun b hb => Option.some.inj hb ▸ ha
  · rw [← String.length_toList, rest_skip hc]

theorem readsAs_number {n : Numeral} (h : IsNumeral n cs) (hv : n.value = .ok v) :
    ReadsAs cs v := by
  obtain ⟨a, tail, htail, -⟩ := h.head_ne
  refine readsAs_of_succ (by simp [htail]) fun fuel c rest _ hrest hc => ?_
  refine ⟨v, c.skip cs.length, readValue_numeral h hrest.stops hc hv, ?_, rest_skip hc⟩
  obtain ⟨s, rfl⟩ := Numeral.exists_scalar hv
  exact Value.rename_scalar _ s

theorem readsAs_text {s : String} (h : IsText cs s.toList) :
    ReadsAs ('"' :: (cs ++ ['"'])) (.str s) := by
  refine readsAs_of_succ (Nat.succ_pos _) fun fuel c rest hfuel _ hc => ?_
  rw [List.length_cons, List.length_append, List.length_singleton] at hfuel
  rw [List.cons_append, List.append_assoc] at hc
  obtain ⟨c', hread, hend⟩ := readText_append h (show _ < fuel by omega) (rest_skip_one hc)
  exact ⟨.str s, c', by rw [readValue_quote hc, hread], Value.rename_scalar _ _, hend⟩

theorem readsAs_emptyList (h : AllSpace space) : ReadsAs ('[' :: (space ++ [']'])) (.seq []) := by
  refine readsAs_of_succ (Nat.succ_pos _) fun fuel c rest _ _ hc => ?_
  rw [List.cons_append, List.append_assoc] at hc
  have hclose : (c.skip 1).skipSpace.rest = ']' :: rest := rest_skipSpace h rfl (rest_skip_one hc)
  refine ⟨.seq [], _, ?_, bare_seq [], rest_skip_one hclose⟩
  rw [readValue_bracket hc, hclose]
  rfl

theorem readsAs_list {items : List Item} {last : Item} (h : ∀ i ∈ items ++ [last], i.IsRead) :
    ReadsAs ('[' :: (separated Item.written items ++ (last.written ++ [']'])))
      (.seq ((items ++ [last]).map (·.value))) := by
  refine readsAs_of_succ (Nat.succ_pos _) fun fuel c rest hfuel _ hc => ?_
  simp only [List.length_cons, List.length_append] at hfuel
  simp only [List.cons_append, List.append_assoc, List.nil_append] at hc
  have hinner := rest_skip_one hc
  have hitems : ∀ i ∈ items, i.IsRead := fun i hi => h i (List.mem_append_left [last] hi)
  have hstart := exists_skipSpace_items hitems hinner fun hnil => by
    subst hnil
    exact (h last List.mem_cons_self).exists_skipSpace hinner
  obtain ⟨ws, c', hreads, hbares, hend⟩ :=
    readItems_list h (show _ < fuel by rw [List.length_append]; omega) hinner
  exact ⟨.seq ws, c', (readValue_items hc hstart).trans hreads, by rw [bare_seq, hbares], hend⟩

theorem readsAs_emptyObject (h : AllSpace space) :
    ReadsAs ('{' :: (space ++ ['}'])) (.map 0 []) := by
  refine readsAs_of_succ (Nat.succ_pos _) fun fuel c rest _ _ hc => ?_
  rw [List.cons_append, List.append_assoc] at hc
  have hclose : c.inside.skipSpace.rest = '}' :: rest := rest_skipSpace h rfl (rest_skip_one hc)
  have hhead : c.inside.skipSpace.rest.head? = some '}' := by
    rw [hclose]
    rfl
  refine ⟨.map c.origin [], c.inside.skipSpace.skip 1, ?_, bare_map _ [], rest_skip_one hclose⟩
  rw [readValue_brace hc]
  exact if_pos hhead

theorem readsAs_object {members : List Member} {last : Member}
    (h : ∀ m ∈ members ++ [last], m.IsRead) :
    ReadsAs ('{' :: (separated Member.written members ++ (last.written ++ ['}'])))
      (.map 0 (Value.ofPairs ((members ++ [last]).map Member.entry))) := by
  refine readsAs_of_succ (Nat.succ_pos _) fun fuel c rest hfuel _ hc => ?_
  simp only [List.length_cons, List.length_append] at hfuel
  simp only [List.cons_append, List.append_assoc, List.nil_append] at hc
  have hinner := Cursor.rest_inside hc
  have hmembers : ∀ m ∈ members, m.label.IsSpelled :=
    fun m hm => (h m (List.mem_append_left [last] hm)).spelled
  have hstart := exists_skipSpace_members hmembers hinner fun hnil => by
    subst hnil
    rw [separated, List.flatMap_nil, List.nil_append, Member.written, List.append_assoc] at hinner
    exact ⟨_, (h last List.mem_cons_self).spelled.skipSpace hinner⟩
  obtain ⟨es, c', hreads, hbares, hend⟩ :=
    readEntries_object h c.origin (show _ < fuel by rw [List.length_append]; omega) hinner
  exact ⟨.map c.origin es, c', (readValue_entries hc hstart).trans hreads,
    by rw [bare_map, hbares], hend⟩

/-- The reader follows the grammar. -/
theorem IsValue.readsAs (h : IsValue cs v) : ReadsAs cs v := by
  induction h with
  | word h => exact readsAs_word h
  | number h hv => exact readsAs_number h hv
  | text h => exact readsAs_text h
  | emptyList h => exact readsAs_emptyList h
  | list hspaced h ih => exact readsAs_list fun i hi => ⟨hspaced i hi, h i hi, ih i hi⟩
  | emptyObject h => exact readsAs_emptyObject h
  | object hspelled hspaced h ih =>
      exact readsAs_object fun m hm => ⟨hspelled m hm, hspaced m hm, h m hm, ih m hm⟩

/-- Where an integer with too many digits stands behind blanks, the blanks are passed. -/
theorem Overflows.rest_skipSpace (h : Overflows cs) (hspace : AllSpace space)
    (hc : c.rest = space ++ cs) : c.skipSpace.rest = cs := by
  obtain ⟨a, tail, rfl, ha, -⟩ := h.exists_cons
  exact Json.rest_skipSpace hspace ha hc

/-- The reader stops at an integer with too many digits if it follows the grammar up to there. -/
theorem Overflows.readValue (h : Overflows cs) (fuel : Nat) (c : Cursor)
    (hfuel : 2 * cs.length ≤ fuel) (hc : c.rest = cs) :
    Json.readValue fuel c = .error .tooManyDigits := by
  induction h generalizing fuel c with
  | @number n cs rest h hfraction hexponent hlimit hrest =>
      obtain ⟨a, tail, htail, -⟩ := h.head_ne
      obtain ⟨fuel, rfl⟩ : ∃ n, fuel = n + 1 := ⟨fuel - 1, by simp [htail] at hfuel; omega⟩
      exact readValue_numeral h hrest hc
        (Numeral.value_eq_error_iff.2 ⟨rfl, hfraction, hexponent, hlimit⟩)
  | @list items before rest hspaced h hbefore hrest ih =>
      have hread : ∀ i ∈ items, i.IsRead := fun i hi => ⟨hspaced i hi, h i hi, (h i hi).readsAs⟩
      have hitems := length_le_separated Item.written items
      simp only [List.length_cons, List.length_append] at hfuel
      obtain ⟨fuel, rfl⟩ : ∃ n, fuel = n + 1 + items.length + 1 :=
        ⟨fuel - items.length - 2, by omega⟩
      have hinner := rest_skip_one hc
      have hstart := exists_skipSpace_items hread hinner fun hnil => by
        subst hnil
        obtain ⟨a, tail, htail, -, hne, -⟩ := hrest.exists_cons
        exact ⟨a, tail, (hrest.rest_skipSpace hbefore hinner).trans htail, hne⟩
      obtain ⟨ws, c', hreads, -, hend⟩ :=
        readItems_separated hread [] (show _ ≤ fuel + 1 + _ by omega) hinner
      have hstop := ih fuel c'.skipSpace (by omega) (hrest.rest_skipSpace hbefore hend)
      rw [readValue_items hc hstart, hreads, readItems, hstop]
  | @object members label before rest hspelled hspaced h hlabel hbefore hrest ih =>
      have hread : ∀ m ∈ members, m.IsRead :=
        fun m hm => ⟨hspelled m hm, hspaced m hm, h m hm, (h m hm).readsAs⟩
      have hmembers := length_le_separated Member.written members
      have hlength : label.text.length < label.written.length := by
        simp [Label.written]
        omega
      simp only [List.length_cons, List.length_append] at hfuel
      obtain ⟨fuel, rfl⟩ : ∃ n, fuel = n + 1 + members.length + 1 :=
        ⟨fuel - members.length - 2, by omega⟩
      have hinner := Cursor.rest_inside hc
      have hstart := exists_skipSpace_members hspelled hinner fun hnil => by
        subst hnil
        exact ⟨_, hlabel.skipSpace hinner⟩
      obtain ⟨es, c', hreads, -, hend⟩ :=
        readEntries_separated hread c.origin [] (show _ ≤ fuel + 1 + _ by omega) hinner
      obtain ⟨c₁, hquote, hname, hcolon⟩ := hlabel.readText (show _ < fuel by omega) hend
      have hstop := ih fuel (c₁.skipSpace.skip 1).skipSpace (by omega)
        (hrest.rest_skipSpace hbefore (rest_skip_one hcolon))
      rw [readValue_entries hc hstart, hreads]
      simp [readEntries, hquote, hname, hcolon, hstop]

end Completeness

/-! ### The reader reads nothing else -/

section Soundness

variable {fuel : Nat} {c c' : Cursor} {cs rest space : List Char} {v : Value}

/-- What is read of values. -/
structure ReadsValues (fuel : Nat) : Prop where
  value : ∀ {c c' v}, readValue fuel c = .ok (v, c') →
    ∃ cs, c.rest = cs ++ c'.rest ∧ IsValue cs v.bare
  overflow : ∀ {c}, readValue fuel c = .error .tooManyDigits → Overflows c.rest

theorem rest_eq_cons {mark : Char} (h : c.rest.head? = some mark) :
    c.rest = mark :: (c.skip 1).rest := by
  obtain ⟨rest, hrest⟩ := List.head?_eq_some_iff.1 h
  rw [rest_skip_one hrest, hrest]

/-- Behind a mark stand the blanks that are passed. -/
theorem exists_behind {mark : Char} (h : c.rest.head? = some mark) :
    ∃ space, AllSpace space ∧ c.rest = mark :: (space ++ (c.skip 1).skipSpace.rest) := by
  obtain ⟨space, hspace, hbehind⟩ := exists_skipSpace (c.skip 1)
  exact ⟨space, hspace, by rw [← hbehind, rest_eq_cons h]⟩

/-- A value that is read is an item, with the blanks that were passed before and behind it. -/
theorem ReadsValues.exists_item (h : ReadsValues fuel) (hread : readValue fuel c = .ok (v, c'))
    (hspace : AllSpace space) :
    ∃ i : Item, space ++ c.rest = i.written ++ c'.skipSpace.rest ∧ i.IsSpaced ∧
      IsValue i.text i.value ∧ i.value = v.bare := by
  obtain ⟨cs, hcs, hvalue⟩ := h.value hread
  obtain ⟨after, hafter, hrest⟩ := exists_skipSpace c'
  refine ⟨⟨space, cs, after, v.bare⟩, ?_, ⟨hspace, hafter⟩, hvalue, rfl⟩
  rw [hcs, hrest]
  simp [Item.written]

/-- A name that is read up to a colon is a label. -/
theorem exists_label {name : String} (hquote : c.rest.head? = some '"')
    (hread : (c.skip 1).readText fuel = .ok (name, c'))
    (hcolon : c'.skipSpace.rest.head? = some ':') (hspace : AllSpace space) :
    ∃ l : Label, space ++ c.rest = l.written ++ (c'.skipSpace.skip 1).rest ∧ l.IsSpelled ∧
      l.name = name := by
  obtain ⟨cs, hcs, htext⟩ := exists_of_readText hread
  obtain ⟨after, hafter, hafter'⟩ := exists_skipSpace c'
  refine ⟨⟨space, cs, after, name⟩, ?_, ⟨hspace, hafter, htext⟩, rfl⟩
  rw [rest_eq_cons hquote, hcs, hafter', rest_eq_cons hcolon]
  simp [Label.written]

/-- A name and the value behind it that are read are an entry. -/
theorem ReadsValues.exists_member (h : ReadsValues fuel) {name : String} {c₁ c₂ : Cursor}
    {w : Value} (hquote : c.rest.head? = some '"')
    (hname : (c.skip 1).readText fuel = .ok (name, c₁))
    (hcolon : c₁.skipSpace.rest.head? = some ':')
    (hread : readValue fuel (c₁.skipSpace.skip 1).skipSpace = .ok (w, c₂))
    (hspace : AllSpace space) :
    ∃ m : Member, space ++ c.rest = m.written ++ c₂.skipSpace.rest ∧ m.label.IsSpelled ∧
      m.item.IsSpaced ∧ IsValue m.item.text m.item.value ∧ m.entry = (.str name, w.bare) := by
  obtain ⟨l, hl, hspelled, rfl⟩ := exists_label hquote hname hcolon hspace
  obtain ⟨before, hbefore, hbefore'⟩ := exists_skipSpace (c₁.skipSpace.skip 1)
  obtain ⟨i, hi, hspaced, hivalue, hbare⟩ := h.exists_item hread hbefore
  refine ⟨⟨l, i⟩, ?_, hspelled, hspaced, hivalue, by rw [Member.entry, hbare]⟩
  rw [hl, hbefore', hi, Member.written, List.append_assoc]

/-- What is read of the items of a list. -/
structure ReadsItems (fuel : Nat) : Prop where
  list : ∀ {read c v c'}, readItems fuel read c = .ok (v, c') → ∀ {space}, AllSpace space →
    ∃ items, ∃ last : Item,
      space ++ c.rest = separated Item.written items ++ (last.written ++ ']' :: c'.rest) ∧
      (∀ i ∈ items ++ [last], i.IsSpaced) ∧ (∀ i ∈ items ++ [last], IsValue i.text i.value) ∧
      v.bare = .seq (read.reverse.map Value.bare ++ (items ++ [last]).map (·.value))
  overflow : ∀ {read c}, readItems fuel read c = .error .tooManyDigits → ∀ {space}, AllSpace space →
    ∃ items before rest, space ++ c.rest = separated Item.written items ++ (before ++ rest) ∧
      (∀ i ∈ items, i.IsSpaced) ∧ (∀ i ∈ items, IsValue i.text i.value) ∧ AllSpace before ∧
      Overflows rest

/-- How the first of some items is read. -/
theorem readItems_cases {read : List Value} {r : Except Stop (Value × Cursor)}
    (h : readItems (fuel + 1) read c = r) (hr : ∀ p n, r ≠ .error (.problem p n)) :
    (∃ stop, readValue fuel c = .error stop ∧ r = .error stop) ∨
    ∃ w c₁, readValue fuel c = .ok (w, c₁) ∧
      (c₁.skipSpace.rest.head? = some ']' ∧
          r = .ok (.seq (w :: read).reverse, c₁.skipSpace.skip 1) ∨
        c₁.skipSpace.rest.head? = some ',' ∧
          r = readItems fuel (w :: read) (c₁.skipSpace.skip 1).skipSpace) := by
  rw [readItems] at h
  cases hread : readValue fuel c with
  | error stop =>
      simp only [hread] at h
      exact .inl ⟨stop, rfl, h.symm⟩
  | ok found =>
      obtain ⟨w, c₁⟩ := found
      simp only [hread] at h
      refine .inr ⟨w, c₁, rfl, ?_⟩
      split at h
      · next hclose => exact .inl ⟨hclose, h.symm⟩
      · split at h
        · next hcomma => exact .inr ⟨hcomma, h.symm⟩
        · exact absurd h.symm (hr _ _)

theorem readsItems_succ (hvalue : ReadsValues fuel) (hitems : ReadsItems fuel) :
    ReadsItems (fuel + 1) := by
  constructor
  · intro read c v c' h space hspace
    obtain ⟨stop, -, hr⟩ | ⟨w, c₁, hread, hnext⟩ := readItems_cases h (by simp)
    · cases hr
    · obtain ⟨i, hi, hispaced, hivalue, hibare⟩ := hvalue.exists_item hread hspace
      rcases hnext with ⟨hclose, hr⟩ | ⟨hcomma, hr⟩
      · obtain ⟨rfl, rfl⟩ := Prod.mk.inj (Except.ok.inj hr)
        refine ⟨[], i, ?_, by simpa using hispaced, by simpa using hivalue, ?_⟩
        · rw [hi, rest_eq_cons hclose]
          rfl
        · rw [bare_seq]
          simp [hibare]
      · obtain ⟨before, hbefore, hbehind⟩ := exists_behind hcomma
        obtain ⟨items, last, heq, hspaced, hvalues, hbare⟩ := hitems.list hr.symm hbefore
        refine ⟨i :: items, last, ?_, List.forall_mem_cons.2 ⟨hispaced, hspaced⟩,
          List.forall_mem_cons.2 ⟨hivalue, hvalues⟩, ?_⟩
        · rw [hi, hbehind, heq, separated_cons, List.append_assoc, List.cons_append]
        · rw [hbare]
          simp [hibare]
  · intro read c h space hspace
    obtain ⟨stop, hstop, hr⟩ | ⟨w, c₁, hread, hnext⟩ := readItems_cases h (by simp)
    · obtain rfl := Except.error.inj hr
      exact ⟨[], space, c.rest, rfl, List.forall_mem_nil _, List.forall_mem_nil _, hspace,
        hvalue.overflow hstop⟩
    · obtain ⟨i, hi, hispaced, hivalue, -⟩ := hvalue.exists_item hread hspace
      rcases hnext with ⟨-, hr⟩ | ⟨hcomma, hr⟩
      · cases hr
      · obtain ⟨before, hbefore, hbehind⟩ := exists_behind hcomma
        obtain ⟨items, before', rest', heq, hspaced, hvalues, hother⟩ :=
          hitems.overflow hr.symm hbefore
        refine ⟨i :: items, before', rest', ?_, List.forall_mem_cons.2 ⟨hispaced, hspaced⟩,
          List.forall_mem_cons.2 ⟨hivalue, hvalues⟩, hother⟩
        rw [hi, hbehind, heq, separated_cons, List.append_assoc, List.cons_append]

/-- What is read of the entries of an object. -/
structure ReadsEntries (fuel : Nat) : Prop where
  object : ∀ {origin es c v c'}, readEntries fuel origin es c = .ok (v, c') →
    ∀ {space}, AllSpace space → ∃ members, ∃ last : Member,
      space ++ c.rest = separated Member.written members ++ (last.written ++ '}' :: c'.rest) ∧
      (∀ m ∈ members ++ [last], m.label.IsSpelled) ∧ (∀ m ∈ members ++ [last], m.item.IsSpaced) ∧
      (∀ m ∈ members ++ [last], IsValue m.item.text m.item.value) ∧
      v.bare = .map 0 (putAll (bareEntries es) ((members ++ [last]).map Member.entry))
  overflow : ∀ {origin es c}, readEntries fuel origin es c = .error .tooManyDigits →
    ∀ {space}, AllSpace space → ∃ members, ∃ label : Label, ∃ before rest,
      space ++ c.rest =
        separated Member.written members ++ (label.written ++ (before ++ rest)) ∧
      (∀ m ∈ members, m.label.IsSpelled) ∧ (∀ m ∈ members, m.item.IsSpaced) ∧
      (∀ m ∈ members, IsValue m.item.text m.item.value) ∧ label.IsSpelled ∧ AllSpace before ∧
      Overflows rest

/-- How the first of some entries is read. -/
theorem readEntries_cases {origin : Nat} {es : Value.Entries} {r : Except Stop (Value × Cursor)}
    (h : readEntries (fuel + 1) origin es c = r) (hr : ∀ p n, r ≠ .error (.problem p n)) :
    ∃ name c₁, c.rest.head? = some '"' ∧ (c.skip 1).readText fuel = .ok (name, c₁) ∧
      c₁.skipSpace.rest.head? = some ':' ∧
      ((∃ stop, readValue fuel (c₁.skipSpace.skip 1).skipSpace = .error stop ∧ r = .error stop) ∨
      ∃ w c₂, readValue fuel (c₁.skipSpace.skip 1).skipSpace = .ok (w, c₂) ∧
        (c₂.skipSpace.rest.head? = some '}' ∧
            r = .ok (.map origin (Value.insert (.str name) w es), c₂.skipSpace.skip 1) ∨
          c₂.skipSpace.rest.head? = some ',' ∧
            r = readEntries fuel origin (Value.insert (.str name) w es)
              (c₂.skipSpace.skip 1).skipSpace)) := by
  rw [readEntries] at h
  split at h
  · exact absurd h.symm (hr _ _)
  · next hquote =>
      rw [not_not] at hquote
      cases hname : (c.skip 1).readText fuel with
      | error stop =>
          simp only [hname] at h
          cases stop with
          | problem p n => exact absurd h.symm (hr p n)
          | tooManyDigits => exact absurd hname readText_ne_tooManyDigits
      | ok found =>
          obtain ⟨name, c₁⟩ := found
          simp only [hname] at h
          split at h
          · exact absurd h.symm (hr _ _)
          · next hcolon =>
              rw [not_not] at hcolon
              refine ⟨name, c₁, hquote, rfl, hcolon, ?_⟩
              cases hread : readValue fuel (c₁.skipSpace.skip 1).skipSpace with
              | error stop =>
                  simp only [hread] at h
                  exact .inl ⟨stop, rfl, h.symm⟩
              | ok found =>
                  obtain ⟨w, c₂⟩ := found
                  simp only [hread] at h
                  refine .inr ⟨w, c₂, rfl, ?_⟩
                  split at h
                  · next hclose => exact .inl ⟨hclose, h.symm⟩
                  · split at h
                    · next hcomma => exact .inr ⟨hcomma, h.symm⟩
                    · exact absurd h.symm (hr _ _)

theorem readsEntries_succ (hvalue : ReadsValues fuel) (hentries : ReadsEntries fuel) :
    ReadsEntries (fuel + 1) := by
  constructor
  · intro origin es c v c' h space hspace
    obtain ⟨name, c₁, hquote, hname, hcolon, ⟨stop, -, hr⟩ | ⟨w, c₂, hread, hnext⟩⟩ :=
      readEntries_cases h (by simp)
    · cases hr
    · obtain ⟨m, hm, hspelled, hspaced, hmvalue, hentry⟩ :=
        hvalue.exists_member hquote hname hcolon hread hspace
      rcases hnext with ⟨hclose, hr⟩ | ⟨hcomma, hr⟩
      · obtain ⟨rfl, rfl⟩ := Prod.mk.inj (Except.ok.inj hr)
        refine ⟨[], m, ?_, by simpa using hspelled, by simpa using hspaced,
          by simpa using hmvalue, ?_⟩
        · rw [hm, rest_eq_cons hclose]
          rfl
        · rw [bare_map, bareEntries_insert]
          simp [putAll, hentry]
      · obtain ⟨before, hbefore, hbehind⟩ := exists_behind hcomma
        obtain ⟨members, last, heq, hspelleds, hspaceds, hvalues, hbare⟩ :=
          hentries.object hr.symm hbefore
        refine ⟨m :: members, last, ?_, List.forall_mem_cons.2 ⟨hspelled, hspelleds⟩,
          List.forall_mem_cons.2 ⟨hspaced, hspaceds⟩, List.forall_mem_cons.2 ⟨hmvalue, hvalues⟩, ?_⟩
        · rw [hm, hbehind, heq, separated_cons, List.append_assoc, List.cons_append]
        · rw [hbare, bareEntries_insert]
          simp [putAll, hentry]
  · intro origin es c h space hspace
    obtain ⟨name, c₁, hquote, hname, hcolon, ⟨stop, hstop, hr⟩ | ⟨w, c₂, hread, hnext⟩⟩ :=
      readEntries_cases h (by simp)
    · obtain rfl := Except.error.inj hr
      obtain ⟨l, hl, hspelled, -⟩ := exists_label hquote hname hcolon hspace
      obtain ⟨before, hbefore, hbefore'⟩ := exists_skipSpace (c₁.skipSpace.skip 1)
      exact ⟨[], l, before, _, by rw [hl, hbefore']; rfl, nofun, nofun, nofun, hspelled, hbefore,
        hvalue.overflow hstop⟩
    · obtain ⟨m, hm, hspelled, hspaced, hmvalue, hentry⟩ :=
        hvalue.exists_member hquote hname hcolon hread hspace
      rcases hnext with ⟨-, hr⟩ | ⟨hcomma, hr⟩
      · cases hr
      · obtain ⟨before, hbefore, hbehind⟩ := exists_behind hcomma
        obtain ⟨members, label, before', rest', heq, hspelleds, hspaceds, hvalues, hother⟩ :=
          hentries.overflow hr.symm hbefore
        refine ⟨m :: members, label, before', rest', ?_,
          List.forall_mem_cons.2 ⟨hspelled, hspelleds⟩, List.forall_mem_cons.2 ⟨hspaced, hspaceds⟩,
          List.forall_mem_cons.2 ⟨hmvalue, hvalues⟩, hother⟩
        rw [hm, hbehind, heq, separated_cons, List.append_assoc, List.cons_append]

/-- What stands first decides how a value is read. -/
theorem opening_cases (c : Cursor) :
    c.rest.head? = some '"' ∨ c.rest.head? = some '[' ∨ c.rest.head? = some '{' ∨
      ∀ a ∈ c.rest.head?, a ∉ ['"', '[', '{'] := by
  by_cases h : ∃ a ∈ c.rest.head?, a ∈ ['"', '[', '{']
  · obtain ⟨a, hhead, ha⟩ := h
    simp only [List.mem_cons, List.not_mem_nil, or_false] at ha
    rcases ha with rfl | rfl | rfl
    · exact .inl hhead
    · exact .inr (.inl hhead)
    · exact .inr (.inr (.inl hhead))
  · exact .inr (.inr (.inr fun a hhead ha => h ⟨a, hhead, ha⟩))

theorem exists_of_readValue_quote (hquote : c.rest.head? = some '"')
    (h : readValue (fuel + 1) c = .ok (v, c')) :
    ∃ cs, c.rest = cs ++ c'.rest ∧ IsValue cs v.bare := by
  rw [readValue_quote (rest_eq_cons hquote)] at h
  cases hread : (c.skip 1).readText fuel with
  | error stop => simp [hread] at h
  | ok r =>
      rw [hread] at h
      obtain ⟨rfl, rfl⟩ := Prod.mk.inj (Except.ok.inj h)
      obtain ⟨cs, hcs, htext⟩ := exists_of_readText hread
      refine ⟨'"' :: (cs ++ ['"']), ?_, ?_⟩
      · rw [rest_eq_cons hquote, hcs]
        simp
      · rw [Value.bare, Value.rename_scalar]
        exact .text htext

theorem readValue_quote_ne_tooManyDigits (hquote : c.rest.head? = some '"') :
    readValue (fuel + 1) c ≠ .error .tooManyDigits := by
  intro h
  rw [readValue_quote (rest_eq_cons hquote)] at h
  split at h
  · next stop hread =>
      rw [Except.error.inj h] at hread
      exact readText_ne_tooManyDigits hread
  · cases h

theorem ReadsItems.exists_value (hitems : ReadsItems fuel) (hbracket : c.rest.head? = some '[')
    (h : readValue (fuel + 1) c = .ok (v, c')) :
    ∃ cs, c.rest = cs ++ c'.rest ∧ IsValue cs v.bare := by
  obtain ⟨space, hspace, hbehind⟩ := exists_behind hbracket
  rw [readValue_bracket hbehind] at h
  split at h
  · next hclose =>
      obtain ⟨rfl, rfl⟩ := Prod.mk.inj (Except.ok.inj h)
      refine ⟨'[' :: (space ++ [']']), ?_, ?_⟩
      · rw [hbehind, rest_eq_cons hclose]
        simp
      · rw [bare_seq]
        exact .emptyList hspace
  · obtain ⟨items, last, heq, hspaced, hvalues, hbare⟩ := hitems.list h hspace
    refine ⟨'[' :: (separated Item.written items ++ (last.written ++ [']'])), ?_, ?_⟩
    · rw [hbehind, heq]
      simp
    · rw [hbare]
      exact .list hspaced hvalues

theorem ReadsItems.overflows (hitems : ReadsItems fuel) (hbracket : c.rest.head? = some '[')
    (h : readValue (fuel + 1) c = .error .tooManyDigits) : Overflows c.rest := by
  obtain ⟨space, hspace, hbehind⟩ := exists_behind hbracket
  rw [readValue_bracket hbehind] at h
  split at h
  · cases h
  · obtain ⟨items, before, rest', heq, hspaced, hvalues, hbefore, hother⟩ :=
      hitems.overflow h hspace
    rw [hbehind, heq]
    exact .list hspaced hvalues hbefore hother

theorem ReadsEntries.exists_value (hentries : ReadsEntries fuel) (hbrace : c.rest.head? = some '{')
    (h : readValue (fuel + 1) c = .ok (v, c')) :
    ∃ cs, c.rest = cs ++ c'.rest ∧ IsValue cs v.bare := by
  obtain ⟨space, hspace, hbehind⟩ := exists_behind hbrace
  rw [readValue_brace hbehind] at h
  dsimp only at h
  split at h
  · next hclose =>
      obtain ⟨rfl, rfl⟩ := Prod.mk.inj (Except.ok.inj h)
      refine ⟨'{' :: (space ++ ['}']), ?_, ?_⟩
      · change c.rest = _ ++ ((c.skip 1).skipSpace.skip 1).rest
        rw [hbehind, rest_eq_cons hclose]
        simp
      · rw [bare_map]
        exact .emptyObject hspace
  · obtain ⟨members, last, heq, hspelled, hspaced, hvalues, hbare⟩ := hentries.object h hspace
    refine ⟨'{' :: (separated Member.written members ++ (last.written ++ ['}'])), ?_, ?_⟩
    · rw [hbehind, heq]
      simp
    · rw [hbare]
      exact .object hspelled hspaced hvalues

theorem ReadsEntries.overflows (hentries : ReadsEntries fuel) (hbrace : c.rest.head? = some '{')
    (h : readValue (fuel + 1) c = .error .tooManyDigits) : Overflows c.rest := by
  obtain ⟨space, hspace, hbehind⟩ := exists_behind hbrace
  rw [readValue_brace hbehind] at h
  dsimp only at h
  split at h
  · cases h
  · obtain ⟨members, label, before, rest', heq, hspelled, hspaced, hvalues, hlabel, hbefore,
      hother⟩ := hentries.overflow h hspace
    rw [hbehind, heq]
    exact .object hspelled hspaced hvalues hlabel hbefore hother

theorem readsValues_succ (hitems : ReadsItems fuel) (hentries : ReadsEntries fuel) :
    ReadsValues (fuel + 1) := by
  constructor
  · intro c c' v h
    rcases opening_cases c with hquote | hbracket | hbrace | hscalar
    · exact exists_of_readValue_quote hquote h
    · exact hitems.exists_value hbracket h
    · exact hentries.exists_value hbrace h
    · rw [readValue_scalar hscalar] at h
      exact exists_of_readScalar h
  · intro c h
    rcases opening_cases c with hquote | hbracket | hbrace | hscalar
    · exact absurd h (readValue_quote_ne_tooManyDigits hquote)
    · exact hitems.overflows hbracket h
    · exact hentries.overflows hbrace h
    · rw [readValue_scalar hscalar] at h
      exact overflows_of_readScalar h

/-- Whatever the fuel, only what the grammar allows is read. -/
theorem reads (fuel : Nat) : ReadsValues fuel ∧ ReadsItems fuel ∧ ReadsEntries fuel := by
  induction fuel with
  | zero =>
      exact ⟨⟨fun h => (nomatch h), fun h => (nomatch h)⟩,
        ⟨fun h => (nomatch h), fun h => (nomatch h)⟩,
        ⟨fun h => (nomatch h), fun h => (nomatch h)⟩⟩
  | succ fuel ih =>
      obtain ⟨hvalues, hitems, hentries⟩ := ih
      exact ⟨readsValues_succ hitems hentries, readsItems_succ hvalues hitems,
        readsEntries_succ hvalues hentries⟩

end Soundness

/-! ### Whole texts -/

section Whole

variable {cs before rest after : List Char} {v : Value} {s : String}

/-- Behind blanks, the reader stands where the rest begins. -/
theorem rest_skipSpace_start {a : Char} (hbefore : AllSpace before) (ha : isSpace a = false)
    (hne : a ≠ '\ufeff') (rest : List Char) (origin : Nat) :
    (before ++ a :: rest).head? ≠ some '\ufeff' ∧
      (Cursor.skipSpace ⟨before ++ a :: rest, 0, origin⟩).rest = a :: rest := by
  refine ⟨fun hhead => ?_, rest_skipSpace hbefore ha rfl⟩
  cases before with
  | nil => exact hne (Option.some.inj hhead)
  | cons b before =>
      have hb := hbefore b List.mem_cons_self
      rw [Option.some.inj hhead] at hb
      cases hb

theorem exists_readFrom (h : IsJson cs v) (origin : Nat) :
    ∃ w next, readFrom origin cs = .ok (w, next) ∧ w.bare = v := by
  cases h with
  | @intro before text after _ hbefore h hafter =>
      obtain ⟨a, tail, htext, ha, -, hne⟩ := h.exists_cons
      obtain ⟨hhead, hstart⟩ := rest_skipSpace_start hbefore ha hne (tail ++ after) origin
      have hcs : before ++ (text ++ after) = before ++ a :: (tail ++ after) := by
        rw [htext, List.cons_append]
      obtain ⟨w, c, hread, hbare, hrest⟩ := h.readsAs
        (2 * (before ++ (text ++ after)).length + 2)
        (Cursor.skipSpace ⟨before ++ (text ++ after), 0, origin⟩) after
        (by simp only [List.length_append]; omega)
        (by simpa using hafter.follows follows_nil) (by rw [hcs, hstart, htext, List.cons_append])
      have hend : c.skipSpace.rest.isEmpty = true := by
        rw [rest_skipSpace_eq_nil (hrest ▸ hafter)]
        rfl
      refine ⟨w, c.skipSpace.origin, ?_, hbare⟩
      rw [readFrom, if_neg (hcs ▸ hhead), hread]
      exact if_pos hend

theorem readFrom_of_hasLongInteger (h : HasLongInteger cs) (origin : Nat) :
    readFrom origin cs = .error .tooManyDigits := by
  cases h with
  | @intro before text hbefore h =>
      obtain ⟨a, tail, rfl, ha, -, hne⟩ := h.exists_cons
      obtain ⟨hhead, hstart⟩ := rest_skipSpace_start hbefore ha hne tail origin
      have hread := h.readValue (2 * (before ++ a :: tail).length + 2) _
        (by simp only [List.length_append]; omega) hstart
      rw [readFrom, if_neg hhead, hread]

theorem isJson_of_readFrom {origin next : Nat} (h : readFrom origin cs = .ok (v, next)) :
    IsJson cs v.bare := by
  rw [readFrom] at h
  split at h
  · cases h
  · obtain ⟨before, hbefore, hcs⟩ := exists_skipSpace ⟨cs, 0, origin⟩
    split at h
    · cases h
    · next w c hread =>
        obtain ⟨after, hafter, hrest⟩ := exists_skipSpace c
        obtain ⟨text, htext, hvalue⟩ := (reads _).1.value hread
        dsimp only at h
        split at h
        · next hend =>
            obtain ⟨rfl, -⟩ := Prod.mk.inj (Except.ok.inj h)
            rw [List.isEmpty_iff.1 hend, List.append_nil] at hrest
            have heq : cs = before ++ (text ++ after) := by
              rw [← hrest, ← htext]
              exact hcs
            exact heq ▸ .intro hbefore hvalue hafter
        · cases h

theorem hasLongInteger_of_readFrom {origin : Nat} (h : readFrom origin cs = .error .tooManyDigits) :
    HasLongInteger cs := by
  rw [readFrom] at h
  split at h
  · cases h
  · obtain ⟨before, hbefore, hcs⟩ := exists_skipSpace ⟨cs, 0, origin⟩
    split at h
    · next stop hread =>
        rw [Except.error.inj h] at hread
        have hcs' : cs = _ := hcs
        rw [hcs']
        exact .intro hbefore ((reads _).1.overflow hread)
    · dsimp only at h
      split at h <;> cases h

/-- A text is read as a value exactly if it is JSON for that value. -/
theorem exists_read_iff : (∃ w, read s = .ok w ∧ w.bare = v) ↔ IsJson s.toList v := by
  constructor
  · rintro ⟨w, hread, rfl⟩
    rw [read] at hread
    split at hread
    · next hfrom =>
        obtain rfl := Except.ok.inj hread
        exact isJson_of_readFrom hfrom
    · cases hread
    · cases hread
  · intro h
    obtain ⟨w, next, hfrom, hbare⟩ := exists_readFrom h 0
    exact ⟨w, by rw [read, hfrom], hbare⟩

/-- The reader stops at too many digits exactly if the text is JSON up to a long integer. -/
theorem read_eq_tooManyDigits_iff : read s = .error .tooManyDigits ↔ HasLongInteger s.toList := by
  constructor
  · intro hread
    rw [read] at hread
    split at hread
    · cases hread
    · cases hread
    · next hfrom => exact hasLongInteger_of_readFrom hfrom
  · intro h
    rw [read, readFrom_of_hasLongInteger h 0]

/-- A text is malformed exactly if it is neither JSON nor JSON up to a long integer. -/
theorem exists_malformed_iff :
    (∃ defect, read s = .error (.malformed defect)) ↔
      (∀ v, ¬ IsJson s.toList v) ∧ ¬ HasLongInteger s.toList := by
  rw [← read_eq_tooManyDigits_iff]
  constructor
  · rintro ⟨defect, hread⟩
    refine ⟨fun v hv => ?_, fun h => ?_⟩
    · obtain ⟨w, hw, -⟩ := exists_read_iff.2 hv
      rw [hw] at hread
      cases hread
    · rw [h] at hread
      cases hread
  · rintro ⟨hjson, hlong⟩
    cases hread : read s with
    | ok w => exact absurd (exists_read_iff.1 ⟨w, hread, rfl⟩) (hjson w.bare)
    | error stop =>
        cases stop with
        | malformed defect => exact ⟨defect, rfl⟩
        | tooManyDigits => exact absurd hread hlong

end Whole

end OpenApiClient.Json
