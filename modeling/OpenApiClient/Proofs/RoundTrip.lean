import OpenApiClient.Json.Reader
import OpenApiClient.Json.Writer
import OpenApiClient.Proofs.Renaming

/-!
# What is written as JSON is read again

A value that is made of texts, lists and mappings is read back as it was when it is written, but for
the origins of its mappings.  The reader stops after a value at its last character, whatever
follows, so the parts of a value are read one after the other.
-/

namespace OpenApiClient

namespace Value

/-- None of the names is among the keys. -/
def Fresh (es : Entries) (names : List String) : Prop :=
  ∀ e ∈ es, ∀ name ∈ names, e.1.same (.str name) = false

variable {es : Entries} {name : String} {names : List String}

theorem fresh_nil (names : List String) : Fresh [] names := fun _ h => absurd h List.not_mem_nil

/-- An entry under a new name comes after all others. -/
theorem Fresh.insert_eq (h : Fresh es (name :: names)) (v : Value) :
    insert (.str name) v es = es ++ [(Scalar.str name, v)] := by
  induction es with
  | nil => rfl
  | cons e es ih =>
      obtain ⟨k, w⟩ := e
      have hk : k.same (.str name) = false := h (k, w) List.mem_cons_self name List.mem_cons_self
      rw [insert, hk, if_neg Bool.false_ne_true,
        ih fun e he => h e (List.mem_cons_of_mem (k, w) he)]
      rfl

theorem Fresh.concat (h : Fresh es (name :: names)) (hnew : name ∉ names) (v : Value) :
    Fresh (es ++ [(Scalar.str name, v)]) names := by
  intro e he other hother
  rcases List.mem_append.1 he with he | he
  · exact h e he other (List.mem_cons_of_mem name hother)
  · rw [List.mem_singleton.1 he, Scalar.same_str, beq_eq_false_iff_ne]
    rintro rfl
    exact hnew hother

end Value

namespace Json

open Text

section Texts

theorem hex4?_hex : ∀ n < 32, hex4? (hex 4 n) = some n := by decide

theorem length_hex (width n : Nat) : (hex width n).length = width := by
  induction width generalizing n with
  | zero => rfl
  | succ width ih => rw [hex, List.length_append, ih, List.length_singleton]

theorem hex4?_append {cs : List Char} (h : cs.length = 4) (rest : List Char) :
    hex4? (cs ++ rest) = hex4? cs := by
  match cs, h with
  | [a, b, c, d], _ => rfl

theorem drop_hex (width n : Nat) (rest : List Char) : (hex width n ++ rest).drop width = rest :=
  List.drop_left' (length_hex width n)

/-- A control character is read off its digits. -/
theorem unicodeEscape_hex (position : Nat) {a : Char} {rest : List Char} (h : a.toNat < 32)
    (hne : rest ≠ []) : unicodeEscape position (hex 4 a.toNat ++ rest) = .ok (a, 4) := by
  have hread : hex4? (hex 4 a.toNat ++ rest) = some a.toNat :=
    (hex4?_append (length_hex 4 _) rest).trans (hex4?_hex a.toNat h)
  have hlow : ¬ 0xd800 ≤ a.toNat := by omega
  simp [unicodeEscape, drop_hex, hread, hne, hlow, unitChar, Char.ofNat_toNat]

/-- A character is written by a letter, by its number or as itself. -/
theorem escapeChar_cases (a : Char) :
    (∃ e, escapeChar a = ['\\', e] ∧ e ≠ 'u' ∧ escape? e = some a) ∨
      (a.toNat < 32 ∧ escapeChar a = '\\' :: 'u' :: hex 4 a.toNat) ∨
      (a ≠ '"' ∧ a ≠ '\\' ∧ ¬ a.toNat < 32 ∧ escapeChar a = [a]) := by
  unfold escapeChar
  split_ifs with hquote hslash hfeed hreturn htab hback hform hcontrol
  iterate 7 subst_vars; exact .inl ⟨_, rfl, by decide, rfl⟩
  · exact .inr (.inl ⟨hcontrol, rfl⟩)
  · exact .inr (.inr ⟨hquote, hslash, hcontrol, rfl⟩)

/-- The reader takes one step for each character that was written. -/
theorem textFrom_escapeChar (start fuel position : Nat) (read : List Char) (a : Char)
    {rest : List Char} (hne : rest ≠ []) : ∃ position',
      textFrom start (fuel + 1) position read (escapeChar a ++ rest) =
        textFrom start fuel position' (a :: read) rest := by
  rcases escapeChar_cases a with ⟨e, heq, hu, hread⟩ | ⟨hcontrol, heq⟩ |
    ⟨hquote, hslash, hcontrol, heq⟩ <;> rw [heq]
  · exact ⟨position + 2, by simp [textFrom, hread]⟩
  · exact ⟨position + 2 + 4, by simp [textFrom, unicodeEscape_hex _ hcontrol hne, drop_hex]⟩
  · exact ⟨position + 1, by simp [textFrom, hquote, hcontrol, hslash]⟩

/-- Written characters are read up to the quote that closes them. -/
theorem textFrom_flatMap_escapeChar (start fuel position : Nat) (read cs rest : List Char)
    (h : cs.length < fuel) : ∃ position',
      textFrom start fuel position read (cs.flatMap escapeChar ++ '"' :: rest) =
        .ok (String.ofList (read.reverse ++ cs), rest, position') := by
  induction cs generalizing fuel position read with
  | nil =>
      obtain ⟨fuel, rfl⟩ := Nat.exists_eq_succ_of_ne_zero (Nat.ne_of_gt h)
      exact ⟨position + 1, by simp [textFrom]⟩
  | cons a cs ih =>
      obtain ⟨fuel, rfl⟩ := Nat.exists_eq_succ_of_ne_zero (Nat.ne_of_gt (Nat.zero_lt_of_lt h))
      have hne : cs.flatMap escapeChar ++ '"' :: rest ≠ [] := by simp
      obtain ⟨position₁, hstep⟩ := textFrom_escapeChar start fuel position read a hne
      obtain ⟨position₂, hrest⟩ := ih fuel position₁ (a :: read) (Nat.lt_of_succ_lt_succ h)
      refine ⟨position₂, ?_⟩
      rw [List.flatMap_cons, List.append_assoc, hstep, hrest]
      simp

theorem length_le_flatMap_escapeChar (cs : List Char) :
    cs.length ≤ (cs.flatMap escapeChar).length := by
  induction cs with
  | nil => exact Nat.le_refl 0
  | cons a cs ih =>
      have hpos : 0 < (escapeChar a).length := by
        rcases escapeChar_cases a with ⟨e, heq, -⟩ | ⟨-, heq⟩ | ⟨-, -, -, heq⟩ <;> simp [heq]
      rw [List.flatMap_cons, List.length_append, List.length_cons]
      omega

/-- A written text is read when its opening quote was passed. -/
theorem readText_written (fuel : Nat) {c : Cursor} (s : String) {rest : List Char}
    (hfuel : (s.toList.flatMap escapeChar).length < fuel)
    (hc : c.rest = s.toList.flatMap escapeChar ++ '"' :: rest) :
    ∃ c', c.readText fuel = .ok (s, c') ∧ c'.rest = rest := by
  have hlength := Nat.lt_of_le_of_lt (length_le_flatMap_escapeChar s.toList) hfuel
  obtain ⟨position, hread⟩ := textFrom_flatMap_escapeChar (c.position - 1) fuel c.position []
    s.toList rest hlength
  refine ⟨{ c with rest, position }, ?_, rfl⟩
  rw [Cursor.readText, hc, hread]
  simp

end Texts

section Values

/-- Only what separates tokens. -/
def AllSpace (cs : List Char) : Prop := ∀ a ∈ cs, isSpace a = true

theorem allSpace_newLine (level : Nat) : AllSpace (newLine level).toList := by
  intro a ha
  rw [newLine, String.toList_ofList] at ha
  rcases List.mem_cons.1 ha with rfl | ha
  · decide
  · rw [List.eq_of_mem_replicate ha]
    decide

theorem rest_skip_one {c : Cursor} {a : Char} {rest : List Char} (h : c.rest = a :: rest) :
    (c.skip 1).rest = rest := by
  rw [Cursor.skip, h]
  rfl

theorem rest_skipSpace {c : Cursor} {space rest : List Char} {a : Char} (hspace : AllSpace space)
    (ha : isSpace a = false) (hc : c.rest = space ++ a :: rest) : c.skipSpace.rest = a :: rest := by
  have hwhile : (space ++ a :: rest).takeWhile isSpace = space := by
    rw [List.takeWhile_append_of_pos hspace, List.takeWhile_cons, ha]
    exact List.append_nil space
  rw [Cursor.skipSpace, Cursor.skip, hc, hwhile]
  exact List.drop_left

theorem rest_skipSpace_of_head {c : Cursor} {rest : List Char} {a : Char} (ha : isSpace a = false)
    (hc : c.rest = a :: rest) : c.skipSpace.rest = a :: rest :=
  rest_skipSpace (fun _ h => absurd h List.not_mem_nil) ha hc

theorem rest_skipSpace_eq_nil {c : Cursor} (h : AllSpace c.rest) : c.skipSpace.rest = [] := by
  have hwhile : c.rest.takeWhile isSpace = c.rest := by
    rw [← List.append_nil c.rest, List.takeWhile_append_of_pos h, List.takeWhile_nil]
  rw [Cursor.skipSpace, Cursor.skip, hwhile]
  exact List.drop_length

/-- Where the characters stand before whatever else, the reader takes them for the value. -/
structure Spells (cs : List Char) (v : Value) : Prop where
  starts : ∃ a rest, cs = a :: rest ∧ (a = '"' ∨ a = '[' ∨ a = '\x7b')
  reads (fuel : Nat) (c : Cursor) (rest : List Char) (hfuel : 2 * cs.length ≤ fuel)
    (hc : c.rest = cs ++ rest) :
    ∃ w c', readValue fuel c = .ok (w, c') ∧ w.bare = v.bare ∧ c'.rest = rest

theorem Spells.exists_cons {cs : List Char} {v : Value} (h : Spells cs v) :
    ∃ a rest, cs = a :: rest ∧ isSpace a = false ∧ a ≠ ']' := by
  obtain ⟨a, rest, hcs, ha⟩ := h.starts
  refine ⟨a, rest, hcs, ?_⟩
  rcases ha with rfl | rfl | rfl <;> decide

theorem toList_writeText (s : String) :
    (writeText s).toList = '"' :: (s.toList.flatMap escapeChar ++ ['"']) := by
  rw [writeText, String.toList_ofList]
  rfl

section Dispatch

variable {fuel : Nat} {c : Cursor} {rest : List Char}

theorem readValue_quote (h : c.rest = '"' :: rest) : readValue (fuel + 1) c =
    match (c.skip 1).readText fuel with
    | .error stop => .error stop
    | .ok (s, c) => .ok (.str s, c) := by
  rw [readValue, h]
  rfl

theorem readValue_bracket (h : c.rest = '[' :: rest) : readValue (fuel + 1) c =
    if (c.skip 1).skipSpace.rest.head? = some ']' then .ok (.seq [], (c.skip 1).skipSpace.skip 1)
    else readItems fuel [] (c.skip 1).skipSpace := by
  rw [readValue, h]
  rfl

theorem readValue_brace (h : c.rest = '{' :: rest) : readValue (fuel + 1) c =
    let inner := { (c.skip 1).skipSpace with origin := (c.skip 1).skipSpace.origin + 1 }
    if inner.rest.head? = some '}' then .ok (.map c.origin [], inner.skip 1)
    else readEntries fuel c.origin [] inner := by
  rw [readValue, h]
  rfl

end Dispatch

theorem spells_writeText (s : String) : Spells (writeText s).toList (.str s) := by
  rw [toList_writeText]
  refine ⟨⟨_, _, rfl, .inl rfl⟩, fun fuel c rest hfuel hc => ?_⟩
  rw [List.cons_append, List.append_assoc, List.singleton_append] at hc
  rw [List.length_cons, List.length_append, List.length_singleton] at hfuel
  obtain ⟨fuel, rfl⟩ : ∃ n, fuel = n + 1 := ⟨fuel - 1, by omega⟩
  obtain ⟨c', hread, hrest⟩ := readText_written fuel s (by omega) (rest_skip_one hc)
  refine ⟨.str s, c', ?_, rfl, hrest⟩
  rw [readValue_quote hc, hread]

theorem Spells.starts_join {t : String} {v : Value} (h : Spells t.toList v) (sep : String)
    (parts : List String) (rest : List Char) : ∃ a tail,
      (join sep (t :: parts)).toList ++ rest = a :: tail ∧ isSpace a = false ∧ a ≠ ']' := by
  obtain ⟨a, tail, ht, ha⟩ := h.exists_cons
  cases parts with
  | nil => exact ⟨a, tail ++ rest, by simp [join, ht], ha⟩
  | cons t' parts => exact ⟨a, _, by simp [join, ht]; rfl, ha⟩

theorem toList_join_cons (space t t' : String) (parts : List String) :
    (join ("," ++ space) (t :: t' :: parts)).toList =
      t.toList ++ ',' :: (space.toList ++ (join ("," ++ space) (t' :: parts)).toList) := by
  simp [join]

/-- Items are read one after the other, up to the bracket that closes them. -/
theorem readItems_join {space space' : String} (hspace : AllSpace space.toList)
    (hspace' : AllSpace space'.toList) {parts : List String} {items : List Value}
    (h : List.Forall₂ (fun t v => Spells t.toList v) parts items) (hne : parts ≠ [])
    {fuel : Nat} {read : List Value} {c : Cursor} {rest : List Char}
    (hfuel : 2 * (join ("," ++ space) parts).toList.length < fuel)
    (hc : c.rest = (join ("," ++ space) parts).toList ++ (space'.toList ++ ']' :: rest)) :
    ∃ ws c', readItems fuel read c = .ok (.seq (read.reverse ++ ws), c') ∧
      ws.map Value.bare = items.map Value.bare ∧ c'.rest = rest := by
  induction h generalizing fuel read c with
  | nil => exact absurd rfl hne
  | @cons t v parts items ht hparts ih =>
      obtain ⟨fuel, rfl⟩ : ∃ n, fuel = n + 1 := ⟨fuel - 1, by omega⟩
      cases hparts with
      | nil =>
          rw [join] at hc hfuel
          obtain ⟨w, c₁, hread, hbare, hrest⟩ := ht.reads fuel c _ (by omega) hc
          have hclose := rest_skipSpace hspace' (by decide : isSpace ']' = false) hrest
          refine ⟨[w], c₁.skipSpace.skip 1, ?_, by simp [hbare], rest_skip_one hclose⟩
          simp [readItems, hread, hclose]
      | @cons t' v' parts items ht' hparts =>
          rw [toList_join_cons] at hc hfuel
          rw [List.length_append, List.length_cons, List.length_append] at hfuel
          rw [List.append_assoc, List.cons_append, List.append_assoc] at hc
          obtain ⟨w, c₁, hread, hbare, hrest⟩ := ht.reads fuel c _ (by omega) hc
          have hcomma : c₁.skipSpace.rest = _ :=
            rest_skipSpace_of_head (by decide) hrest
          -- Behind the comma stands the next item, which begins with no space.
          obtain ⟨a, tail, htail, ha, -⟩ :=
            ht'.starts_join ("," ++ space) parts (space'.toList ++ ']' :: rest)
          have hnext : (c₁.skipSpace.skip 1).skipSpace.rest = a :: tail :=
            rest_skipSpace hspace ha (htail ▸ rest_skip_one hcomma)
          have hlength : 2 * (join ("," ++ space) (t' :: parts)).toList.length < fuel := by omega
          obtain ⟨ws, c', hreads, hbares, hend⟩ : ∃ ws c', readItems fuel (w :: read) _ = _ ∧ _ :=
            ih (List.cons_ne_nil t' parts) hlength (hnext.trans htail.symm)
          refine ⟨w :: ws, c', ?_, by rw [List.map_cons, List.map_cons, hbare, hbares], hend⟩
          simp [readItems, hread, hcomma, hreads]

theorem toList_bracketed (level : Nat) (opening closing t : String) (parts : List String) :
    (bracketed level opening closing (t :: parts)).toList =
      opening.toList ++ ((newLine (level + 1)).toList ++
        ((join ("," ++ newLine (level + 1)) (t :: parts)).toList ++
          ((newLine level).toList ++ closing.toList))) := by
  simp [bracketed]

/-- Parts that are values make a list. -/
theorem spells_list (level : Nat) {parts : List String} {items : List Value}
    (h : List.Forall₂ (fun t v => Spells t.toList v) parts items) :
    Spells (bracketed level "[" "]" parts).toList (.seq items) := by
  cases h with
  | nil =>
      rw [show (bracketed level "[" "]" []).toList = ['[', ']'] by simp [bracketed]]
      refine ⟨⟨_, _, rfl, .inr (.inl rfl)⟩, fun fuel c rest hfuel hc => ?_⟩
      rw [List.length_cons] at hfuel
      obtain ⟨fuel, rfl⟩ : ∃ n, fuel = n + 1 := ⟨fuel - 1, by omega⟩
      have hclose : (c.skip 1).skipSpace.rest = _ :=
        rest_skipSpace_of_head (by decide) (rest_skip_one hc)
      refine ⟨.seq [], _, ?_, rfl, rest_skip_one hclose⟩
      rw [readValue_bracket hc, hclose]
      rfl
  | @cons t v parts items ht hparts =>
      rw [toList_bracketed]
      refine ⟨⟨_, _, rfl, .inr (.inl rfl)⟩, fun fuel c rest hfuel hc => ?_⟩
      simp only [List.length_append] at hfuel
      have hbracket : ("[" : String).toList.length = 1 := rfl
      obtain ⟨fuel, rfl⟩ : ∃ n, fuel = n + 1 := ⟨fuel - 1, by omega⟩
      obtain ⟨a, tail, htail, ha, hclose⟩ := ht.starts_join ("," ++ newLine (level + 1)) parts
        ((newLine level).toList ++ ']' :: rest)
      have hrest : c.rest = '[' :: ((newLine (level + 1)).toList ++ a :: tail) := by
        rw [← htail]
        simpa using hc
      have hinner : (c.skip 1).skipSpace.rest = a :: tail :=
        rest_skipSpace (allSpace_newLine (level + 1)) ha (rest_skip_one hrest)
      have hlength : 2 * (join ("," ++ newLine (level + 1)) (t :: parts)).toList.length < fuel := by
        omega
      obtain ⟨ws, c', hread, hbares, hend⟩ : ∃ ws c', readItems fuel [] _ = _ ∧ _ :=
        readItems_join (allSpace_newLine (level + 1)) (allSpace_newLine level) (.cons ht hparts)
          (List.cons_ne_nil t parts) hlength (hinner.trans htail.symm)
      refine ⟨.seq ws, c', ?_, ?_, hend⟩
      · rw [readValue_bracket hrest]
        exact (if_neg (by rw [hinner]; simpa using hclose)).trans hread
      · rw [Value.bare, Value.bare, Value.rename_seq, Value.rename_seq]
        exact congrArg Value.seq hbares

/-- A name and what is read off the characters behind it. -/
def SpellsField (t : String) (field : String × Value) : Prop :=
  ∃ value : String, t = writeText field.1 ++ ": " ++ value ∧ Spells value.toList field.2

theorem SpellsField.starts_join {t : String} {field : String × Value} (h : SpellsField t field)
    (sep : String) (parts : List String) (rest : List Char) : ∃ tail,
      (join sep (t :: parts)).toList ++ rest = '"' :: tail := by
  obtain ⟨value, rfl, -⟩ := h
  cases parts with
  | nil => exact ⟨_, by simp [join, toList_writeText]; rfl⟩
  | cons t' parts => exact ⟨_, by simp [join, toList_writeText]; rfl⟩

/-- An entry is read up to what stands behind its value. -/
theorem SpellsField.reads {t : String} {field : String × Value} (h : SpellsField t field)
    (fuel : Nat) {c : Cursor} {rest : List Char} (hfuel : 2 * t.toList.length < fuel)
    (hc : c.rest = t.toList ++ rest) :
    ∃ c₁ w c₂, c.rest.head? = some '"' ∧ (c.skip 1).readText fuel = .ok (field.1, c₁) ∧
      c₁.skipSpace.rest.head? = some ':' ∧
      readValue fuel (c₁.skipSpace.skip 1).skipSpace = .ok (w, c₂) ∧
      w.bare = field.2.bare ∧ c₂.rest = rest := by
  obtain ⟨value, rfl, hvalue⟩ := h
  have htext : (writeText field.1 ++ ": " ++ value).toList =
      '"' :: (field.1.toList.flatMap escapeChar ++ '"' :: ':' :: ' ' :: value.toList) := by
    simp [toList_writeText]
  rw [htext] at hc hfuel
  simp only [List.length_cons, List.length_append] at hfuel
  rw [List.cons_append, List.append_assoc] at hc
  obtain ⟨c₁, hname, hrest⟩ := readText_written fuel field.1 (by omega) (rest_skip_one hc)
  have hcolon : c₁.skipSpace.rest = _ :=
    rest_skipSpace_of_head (by decide) hrest
  obtain ⟨a, tail, htail, ha, -⟩ := hvalue.exists_cons
  have hblank : AllSpace [' '] := fun b hb => List.mem_singleton.1 hb ▸ rfl
  have hstart : (c₁.skipSpace.skip 1).skipSpace.rest = a :: (tail ++ rest) := by
    refine rest_skipSpace hblank ha ((rest_skip_one hcolon).trans ?_)
    rw [htail]
    rfl
  obtain ⟨w, c₂, hread, hbare, hend⟩ := hvalue.reads fuel _ rest (by omega)
    (hstart.trans (by rw [htail]; rfl))
  exact ⟨c₁, w, c₂, by rw [hc]; rfl, hname, by rw [hcolon]; rfl, hread, hbare, hend⟩

/-- Entries are read one after the other, up to the brace that closes them. -/
theorem readEntries_join {space space' : String} (hspace : AllSpace space.toList)
    (hspace' : AllSpace space'.toList) {parts : List String} {fields : List (String × Value)}
    (h : List.Forall₂ SpellsField parts fields) (hne : parts ≠ [])
    (hdistinct : (fields.map (·.1)).Nodup) {fuel origin : Nat} {es : Value.Entries}
    (hfresh : Value.Fresh es (fields.map (·.1))) {c : Cursor} {rest : List Char}
    (hfuel : 2 * (join ("," ++ space) parts).toList.length + 1 < fuel)
    (hc : c.rest = (join ("," ++ space) parts).toList ++ (space'.toList ++ '}' :: rest)) :
    ∃ es' c', readEntries fuel origin es c = .ok (.map origin (es ++ es'), c') ∧
      es'.map (fun e => (e.1, e.2.bare)) = fields.map (fun f => (.str f.1, f.2.bare)) ∧
      c'.rest = rest := by
  induction h generalizing fuel es c with
  | nil => exact absurd rfl hne
  | @cons t field parts fields ht hparts ih =>
      obtain ⟨fuel, rfl⟩ : ∃ n, fuel = n + 1 := ⟨fuel - 1, by omega⟩
      have hinsert (w : Value) := hfresh.insert_eq w
      cases hparts with
      | nil =>
          rw [join] at hc hfuel
          obtain ⟨c₁, w, c₂, hquote, hname, hcolon, hread, hbare, hend⟩ :=
            ht.reads fuel (by omega) hc
          have hclose := rest_skipSpace hspace' (by decide : isSpace '}' = false) hend
          refine ⟨[(Scalar.str field.1, w)], c₂.skipSpace.skip 1, ?_, by simp [hbare],
            rest_skip_one hclose⟩
          simp [readEntries, hquote, hname, hcolon, hread, hclose, hinsert]
      | @cons t' field' parts fields ht' hparts =>
          rw [toList_join_cons] at hc hfuel
          rw [List.length_append, List.length_cons, List.length_append] at hfuel
          rw [List.append_assoc, List.cons_append, List.append_assoc] at hc
          obtain ⟨c₁, w, c₂, hquote, hname, hcolon, hread, hbare, hend⟩ :=
            ht.reads fuel (by omega) hc
          have hcomma : c₂.skipSpace.rest = _ :=
            rest_skipSpace_of_head (by decide) hend
          obtain ⟨tail, htail⟩ :=
            ht'.starts_join ("," ++ space) parts (space'.toList ++ '}' :: rest)
          have hnext : (c₂.skipSpace.skip 1).skipSpace.rest = '"' :: tail :=
            rest_skipSpace hspace (by decide) (htail ▸ rest_skip_one hcomma)
          obtain ⟨hnew, hdistinct⟩ := List.nodup_cons.1 hdistinct
          have hlength : 2 * (join ("," ++ space) (t' :: parts)).toList.length + 1 < fuel := by
            omega
          obtain ⟨es', c', hreads, hbares, hlast⟩ : ∃ es' c',
              readEntries fuel origin (es ++ [(Scalar.str field.1, w)]) _ = _ ∧ _ :=
            ih (List.cons_ne_nil t' parts) hdistinct (hfresh.concat hnew w) hlength
              (hnext.trans htail.symm)
          refine ⟨(.str field.1, w) :: es', c', ?_,
            by rw [List.map_cons, List.map_cons, hbare, hbares], hlast⟩
          simp [readEntries, hquote, hname, hcolon, hread, hcomma, hinsert, hreads]

/-- Parts that are entries with different names make a mapping. -/
theorem spells_mapping (level origin : Nat) {parts : List String} {fields : List (String × Value)}
    (h : List.Forall₂ SpellsField parts fields) (hdistinct : (fields.map (·.1)).Nodup) :
    Spells (bracketed level "\x7b" "\x7d" parts).toList
      (.map origin (fields.map fun f => (.str f.1, f.2))) := by
  cases h with
  | nil =>
      rw [show (bracketed level "\x7b" "\x7d" []).toList = ['{', '}'] by simp [bracketed]]
      refine ⟨⟨_, _, rfl, .inr (.inr rfl)⟩, fun fuel c rest hfuel hc => ?_⟩
      rw [List.length_cons] at hfuel
      obtain ⟨fuel, rfl⟩ : ∃ n, fuel = n + 1 := ⟨fuel - 1, by omega⟩
      have hclose : (c.skip 1).skipSpace.rest = _ :=
        rest_skipSpace_of_head (by decide) (rest_skip_one hc)
      let inner := { (c.skip 1).skipSpace with origin := (c.skip 1).skipSpace.origin + 1 }
      refine ⟨.map c.origin [], inner.skip 1, ?_, rfl, rest_skip_one hclose⟩
      rw [readValue_brace hc]
      exact if_pos (by rw [hclose]; rfl)
  | @cons t field parts fields ht hparts =>
      rw [toList_bracketed]
      refine ⟨⟨_, _, rfl, .inr (.inr rfl)⟩, fun fuel c rest hfuel hc => ?_⟩
      simp only [List.length_append] at hfuel
      have hopening : ("\x7b" : String).toList.length = 1 := rfl
      have hclosing : ("\x7d" : String).toList.length = 1 := rfl
      obtain ⟨fuel, rfl⟩ : ∃ n, fuel = n + 1 := ⟨fuel - 1, by omega⟩
      obtain ⟨tail, htail⟩ := ht.starts_join ("," ++ newLine (level + 1)) parts
        ((newLine level).toList ++ '}' :: rest)
      have hrest : c.rest = '{' :: ((newLine (level + 1)).toList ++ '"' :: tail) := by
        rw [← htail]
        simpa using hc
      have hinner : (c.skip 1).skipSpace.rest = '"' :: tail :=
        rest_skipSpace (allSpace_newLine (level + 1)) (by decide) (rest_skip_one hrest)
      have hlength :
          2 * (join ("," ++ newLine (level + 1)) (t :: parts)).toList.length + 1 < fuel := by
        omega
      obtain ⟨es, c', hread, hbares, hend⟩ : ∃ es c', readEntries fuel c.origin []
          { (c.skip 1).skipSpace with origin := (c.skip 1).skipSpace.origin + 1 } = _ ∧ _ :=
        readEntries_join (allSpace_newLine (level + 1)) (allSpace_newLine level) (.cons ht hparts)
          (List.cons_ne_nil t parts) hdistinct (Value.fresh_nil _) hlength (hinner.trans htail.symm)
      refine ⟨.map c.origin es, c', ?_, ?_, hend⟩
      · rw [readValue_brace hrest]
        exact (if_neg (by rw [hinner]; simp)).trans hread
      · rw [Value.bare, Value.bare, Value.rename_map, Value.rename_map, List.map_map]
        exact congrArg (Value.map 0) hbares

/-- What is made of texts, lists, and mappings in which every name is a text and stands once. -/
inductive Plain : Value → Prop
  | text (s : String) : Plain (.str s)
  | list {items : List Value} (h : ∀ v ∈ items, Plain v) : Plain (.seq items)
  | mapping (origin : Nat) {fields : List (String × Value)} (h : ∀ f ∈ fields, Plain f.2)
      (hdistinct : (fields.map (·.1)).Nodup) :
      Plain (.map origin (fields.map fun f => (.str f.1, f.2)))

theorem exists_writeItems {items : List Value} {level : Nat}
    (h : ∀ v ∈ items, ∃ t, writeAt level v = .ok t ∧ Spells t.toList v) :
    ∃ parts, writeItems level items = .ok parts ∧
      List.Forall₂ (fun t v => Spells t.toList v) parts items := by
  induction items with
  | nil => exact ⟨[], rfl, .nil⟩
  | cons v items ih =>
      obtain ⟨t, hwrite, ht⟩ := h v List.mem_cons_self
      obtain ⟨parts, hparts, hall⟩ := ih fun v' hv' => h v' (List.mem_cons_of_mem v hv')
      refine ⟨t :: parts, ?_, .cons ht hall⟩
      rw [writeItems, hwrite, hparts]
      rfl

theorem exists_writeEntries {fields : List (String × Value)} {level : Nat}
    (h : ∀ f ∈ fields, ∃ t, writeAt level f.2 = .ok t ∧ Spells t.toList f.2) :
    ∃ parts, writeEntries level (fields.map fun f => (.str f.1, f.2)) = .ok parts ∧
      List.Forall₂ SpellsField parts fields := by
  induction fields with
  | nil => exact ⟨[], rfl, .nil⟩
  | cons f fields ih =>
      obtain ⟨t, hwrite, ht⟩ := h f List.mem_cons_self
      obtain ⟨parts, hparts, hall⟩ := ih fun f' hf' => h f' (List.mem_cons_of_mem f hf')
      refine ⟨(writeText f.1 ++ ": " ++ t) :: parts, ?_, .cons ⟨t, rfl, ht⟩ hall⟩
      rw [List.map_cons, writeEntries, hwrite, hparts]
      rfl

/-- A plain value has a text at every level, off which it is read. -/
theorem exists_writeAt {v : Value} (h : Plain v) (level : Nat) :
    ∃ t, writeAt level v = .ok t ∧ Spells t.toList v := by
  induction h generalizing level with
  | text s => exact ⟨writeText s, rfl, spells_writeText s⟩
  | list h ih =>
      obtain ⟨parts, hwrite, hparts⟩ := exists_writeItems fun v hv => ih v hv (level + 1)
      refine ⟨bracketed level "[" "]" parts, ?_, spells_list level hparts⟩
      rw [writeAt, hwrite]
      rfl
  | mapping origin h hdistinct ih =>
      obtain ⟨parts, hwrite, hparts⟩ := exists_writeEntries fun f hf => ih f hf (level + 1)
      refine ⟨bracketed level "\x7b" "\x7d" parts, ?_, spells_mapping level origin hparts hdistinct⟩
      rw [writeAt, hwrite]
      rfl

/-- A plain value is read off what is written for it, whatever blanks follow. -/
theorem exists_write {v : Value} (h : Plain v) {space : String} (hspace : AllSpace space.toList) :
    ∃ t w, write v = .ok t ∧ read (t ++ space) = .ok w ∧ Value.Alike v w := by
  obtain ⟨t, hwrite, ht⟩ := exists_writeAt h 0
  obtain ⟨a, tail, htail, ha⟩ := ht.starts
  have htext : (t ++ space).toList = a :: (tail ++ space.toList) := by
    rw [String.toList_append, htail]
    rfl
  have hblank : isSpace a = false ∧ a ≠ '\ufeff' := by
    rcases ha with rfl | rfl | rfl <;> decide
  have hstart : (Cursor.skipSpace ⟨(t ++ space).toList, 0, 0⟩).rest = t.toList ++ space.toList := by
    rw [← String.toList_append, htext]
    exact rest_skipSpace_of_head hblank.1 rfl
  have hfuel : 2 * t.toList.length ≤ 2 * (t ++ space).toList.length + 2 := by
    rw [String.toList_append, List.length_append]
    omega
  obtain ⟨w, c, hread, hbare, hrest⟩ := ht.reads _ _ _ hfuel hstart
  have hend : c.skipSpace.rest.isEmpty = true := by
    rw [rest_skipSpace_eq_nil (hrest ▸ hspace)]
    rfl
  refine ⟨t, w, hwrite, ?_, hbare.symm⟩
  have hfrom : readFrom 0 (t ++ space).toList = .ok (w, c.skipSpace.origin) := by
    rw [readFrom, hread, if_neg (by rw [htext]; simpa using hblank.2)]
    exact if_pos hend
  rw [read, hfrom]

end Values

end Json

end OpenApiClient
