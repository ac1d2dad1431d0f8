import OpenApiClient.Proofs.Variables

/-!
# Keys of names

Where a name is cut at a separator, or between a small letter or digit and a capital, its words are
those of the one part and then those of the other.  So it does not count how words are set off from
each other: they can be read back from all ways to write them as one name.

In a key underscores set the words off, and the words of a key are those of the name.  This makes
the key a normal form, and the names in normal form are those which are their own keys.  A variable
is made of words, so it is the same for all names with the same key.
-/

namespace OpenApiClient.Name

open Text

/-- Characters that separate words: all but the letters and digits of ASCII, the Kelvin sign and the
dotted capital I. -/
def separates (c : Char) : Bool :=
  !isCapital c && !isWordChar c && c ≠ '\u212a' && c ≠ '\u0130'

theorem keyChars_of_separates {c : Char} (h : separates c = true) : keyChars c = ['_'] := by
  obtain ⟨⟨⟨hcapital, hword⟩, hkelvin⟩, hdotted⟩ := by
    simpa only [separates, Bool.and_eq_true, Bool.not_eq_true', decide_eq_true_eq] using h
  simp [keyChars, keyChar, hcapital, hword, hkelvin, hdotted]

theorem isWordChar_of_separates {c : Char} (h : separates c = true) :
    isCapital c = false ∧ isWordChar c = false := by
  obtain ⟨⟨h, -⟩, -⟩ := by simpa only [separates, Bool.and_eq_true] using h
  simpa using h

theorem keyChars_of_isWordChar {c : Char} (h : isWordChar c = true) : keyChars c = [c] :=
  isWordChar_cases (P := fun c => keyChars c = [c]) (by decide) h

theorem keyChars_toUpper {c : Char} (h : isSmall c = true) : keyChars c.toUpper = [c] :=
  isWordChar_cases (P := fun c => isSmall c = true → keyChars c.toUpper = [c]) (by decide)
    (by simp [isWordChar, h]) h

theorem isCapital_toUpper {c : Char} (h : isSmall c = true) : isCapital c.toUpper = true :=
  isWordChar_cases (P := fun c => isSmall c = true → isCapital c.toUpper = true) (by decide)
    (by simp [isWordChar, h]) h

theorem isWordChar_getLast? {cs : List Char} (hne : cs ≠ []) (h : ∀ c ∈ cs, isWordChar c = true) :
    cs.getLast?.any isWordChar = true := by
  rw [List.getLast?_eq_some_getLast hne]
  exact h _ (List.getLast_mem hne)

section Splitting

variable {sep : Char} {cs rest : List Char}

/-- Two rows are split each on its own, and there is a hump where they meet if the one ends with a
small letter or digit and the other begins with a capital. -/
theorem splitHumps_append_cons (cs : List Char) (c : Char) (rest : List Char) :
    splitHumps (cs ++ c :: rest) =
      if cs.getLast?.any isWordChar && isCapital c then
        splitHumps cs ++ '_' :: splitHumps (c :: rest)
      else splitHumps cs ++ splitHumps (c :: rest) := by
  fun_induction splitHumps cs with
  | case1 a b cs hhump ih =>
      rw [List.getLast?_cons_cons, List.cons_append, List.cons_append, splitHumps, if_pos hhump]
      split_ifs at ih ⊢ <;> exact congrArg (a :: '_' :: ·) ih
  | case2 a b cs hhump ih =>
      rw [List.getLast?_cons_cons, List.cons_append, List.cons_append, splitHumps, if_neg hhump]
      split_ifs at ih ⊢ <;> exact congrArg (a :: ·) ih
  | case3 cs hshort =>
      match cs, hshort with
      | [], _ => rfl
      | [a], _ =>
          rw [List.singleton_append, splitHumps]
          rfl
      | a :: b :: cs, hshort => exact absurd rfl (hshort a b cs)

theorem splitHumps_cons (hword : isWordChar sep = false) (rest : List Char) :
    splitHumps (sep :: rest) = sep :: splitHumps rest := by
  cases rest with
  | nil => rfl
  | cons c rest => rw [splitHumps, hword, Bool.false_and, if_neg Bool.false_ne_true]

theorem splitAcronyms_cons (hcapital : isCapital sep = false) (rest : List Char) :
    splitAcronyms (sep :: rest) = sep :: splitAcronyms rest := by
  match rest with
  | [] => rfl
  | [b] => rfl
  | b :: c :: rest =>
      rw [splitAcronyms, hcapital, Bool.false_and, Bool.false_and, if_neg Bool.false_ne_true]

theorem splitAcronyms_cons_cons (hcapital : isCapital sep = false) (c : Char) (rest : List Char) :
    splitAcronyms (c :: sep :: rest) = c :: splitAcronyms (sep :: rest) := by
  cases rest with
  | nil => rfl
  | cons d rest =>
      rw [splitAcronyms, hcapital, Bool.and_false, Bool.false_and, if_neg Bool.false_ne_true]

/-- At a character that is no letter no row of capitals is split. -/
theorem splitAcronyms_append_cons (hcapital : isCapital sep = false)
    (hsmall : isSmall sep = false) (cs rest : List Char) :
    splitAcronyms (cs ++ sep :: rest) = splitAcronyms cs ++ sep :: splitAcronyms rest := by
  fun_induction splitAcronyms cs with
  | case1 a b c cs hrow ih =>
      rw [List.cons_append, List.cons_append, List.cons_append, splitAcronyms, if_pos hrow]
      exact congrArg (a :: '_' :: ·) ih
  | case2 a b c cs hrow ih =>
      rw [List.cons_append, List.cons_append, List.cons_append, splitAcronyms, if_neg hrow]
      exact congrArg (a :: ·) ih
  | case3 cs hshort =>
      match cs, hshort with
      | [], _ => exact splitAcronyms_cons hcapital rest
      | [a], _ =>
          rw [List.singleton_append, splitAcronyms_cons_cons hcapital, splitAcronyms_cons hcapital]
          rfl
      | [a, b], _ =>
          rw [List.cons_append, List.singleton_append, splitAcronyms, hsmall, Bool.and_false,
            if_neg Bool.false_ne_true, splitAcronyms_cons_cons hcapital,
            splitAcronyms_cons hcapital]
          rfl
      | a :: b :: c :: cs, hshort => exact absurd rfl (hshort a b c cs)

theorem splitHumps_eq_self (h : ∀ c ∈ cs.tail, isCapital c = false) : splitHumps cs = cs := by
  fun_induction splitHumps cs with
  | case1 a b cs hhump ih =>
      rw [h b List.mem_cons_self, Bool.and_false] at hhump
      cases hhump
  | case2 a b cs hhump ih =>
      rw [ih fun c hc => h c (List.mem_cons_of_mem b hc)]
  | case3 cs hshort => rfl

theorem splitAcronyms_eq_self (h : ∀ c ∈ cs.tail, isCapital c = false) : splitAcronyms cs = cs := by
  fun_induction splitAcronyms cs with
  | case1 a b c cs hrow ih =>
      rw [h b List.mem_cons_self, Bool.and_false, Bool.false_and] at hrow
      cases hrow
  | case2 a b c cs hrow ih =>
      rw [ih fun d hd => h d (List.mem_cons_of_mem b hd)]
  | case3 cs hshort => rfl

end Splitting

/-- The words of a name whose humps have been split. -/
def wordsOfHumps (cs : List Char) : List (List Char) :=
  (pieces '_' ((splitAcronyms cs).flatMap keyChars)).filter (!·.isEmpty)

theorem words_eq (name : List Char) : words name = wordsOfHumps (splitHumps name) := rfl

/-- What a separator stands between has words of its own on either side. -/
theorem wordsOfHumps_append_cons {sep : Char} (hsep : separates sep = true) (cs rest : List Char) :
    wordsOfHumps (cs ++ sep :: rest) = wordsOfHumps cs ++ wordsOfHumps rest := by
  obtain ⟨hcapital, hword⟩ := isWordChar_of_separates hsep
  have hsmall : isSmall sep = false := (Bool.or_eq_false_iff.1 hword).1
  rw [wordsOfHumps, splitAcronyms_append_cons hcapital hsmall, List.flatMap_append,
    List.flatMap_cons, keyChars_of_separates hsep, List.singleton_append, pieces_append_cons,
    List.filter_append]
  rfl

/-- A name is cut into words at every separator. -/
theorem words_append_cons {sep : Char} (hsep : separates sep = true) (cs rest : List Char) :
    words (cs ++ sep :: rest) = words cs ++ words rest := by
  obtain ⟨hcapital, hword⟩ := isWordChar_of_separates hsep
  rw [words_eq, splitHumps_append_cons, hcapital, Bool.and_false, if_neg Bool.false_ne_true,
    splitHumps_cons hword, wordsOfHumps_append_cons hsep]
  rfl

/-- A name is cut into words before every capital that follows a small letter or digit. -/
theorem words_append_of_isCapital {cs : List Char} {c : Char}
    (hcs : cs.getLast?.any isWordChar = true) (hc : isCapital c = true) (rest : List Char) :
    words (cs ++ c :: rest) = words cs ++ words (c :: rest) := by
  rw [words_eq, splitHumps_append_cons, hcs, hc, Bool.and_self, if_pos rfl,
    wordsOfHumps_append_cons (by decide)]
  rfl

/-- A letter and the small letters and digits behind it are one word. -/
theorem words_cons {c d : Char} {cs : List Char} (hc : keyChars c = [d])
    (hw : IsWord (d :: cs)) : words (c :: cs) = [d :: cs] := by
  have hchars : ∀ x ∈ cs, isWordChar x = true := fun x hx => hw.chars x (List.mem_cons_of_mem d hx)
  have hcapital : ∀ x ∈ (c :: cs).tail, isCapital x = false :=
    fun x hx => isCapital_of_isWordChar (hchars x hx)
  have hcs : cs.flatMap keyChars = cs := by
    rw [List.flatMap_congr fun x hx => keyChars_of_isWordChar (hchars x hx),
      List.flatMap_singleton']
  rw [words_eq, splitHumps_eq_self hcapital, wordsOfHumps, splitAcronyms_eq_self hcapital,
    List.flatMap_cons, hc, hcs, List.singleton_append, pieces_of_notMem hw.underscore_notMem]
  rfl

theorem words_of_isWord {w : List Char} (h : IsWord w) : words w = [w] := by
  cases w with
  | nil => exact absurd rfl h.ne_nil
  | cons c cs => exact words_cons (keyChars_of_isWordChar (h.chars c List.mem_cons_self)) h

/-- Words that a separator sets off from each other can be read back. -/
theorem words_intercalate {sep : Char} (hsep : separates sep = true) {ws : List (List Char)}
    (h : ∀ w ∈ ws, IsWord w) : words ([sep].intercalate ws) = ws := by
  induction ws with
  | nil => rfl
  | cons w ws ih =>
      have hw := words_of_isWord (h w List.mem_cons_self)
      cases ws with
      | nil => rw [List.intercalate_singleton, hw]
      | cons v vs =>
          rw [List.intercalate_cons_cons, List.append_assoc, List.singleton_append,
            words_append_cons hsep, hw, ih fun v hv => h v (List.mem_cons_of_mem w hv)]
          rfl

theorem joinWords_eq (ws : List (List Char)) : joinWords ws = ['_'].intercalate ws := by
  induction ws with
  | nil => rfl
  | cons w ws ih =>
      cases ws with
      | nil => rw [List.intercalate_singleton, joinWords]
      | cons v vs =>
          rw [joinWords, ih, List.intercalate_cons_cons, List.append_assoc]
          · rfl
          · simp

theorem toList_key (name : String) : (key name).toList = ['_'].intercalate (words name.toList) := by
  rw [key, String.toList_ofList, joinWords_eq]

/-- Names in normal form: words joined by single underscores. -/
def IsKey (name : String) : Prop :=
  ∃ ws, (∀ w ∈ ws, IsWord w) ∧ name.toList = ['_'].intercalate ws

theorem isKey_key (name : String) : IsKey (key name) :=
  ⟨words name.toList, fun _ hw => isWord_of_mem_words hw, toList_key name⟩

/-- A key has the words of its name. -/
theorem words_key (name : String) : words (key name).toList = words name.toList := by
  rw [toList_key]
  exact words_intercalate (by decide) fun _ hw => isWord_of_mem_words hw

/-- Names in normal form are their own keys, and no others are. -/
theorem key_eq_self_iff {name : String} : key name = name ↔ IsKey name := by
  constructor
  · intro h
    rw [← h]
    exact isKey_key name
  · rintro ⟨ws, hws, hname⟩
    rw [← String.toList_inj, toList_key, hname, words_intercalate (by decide) hws]

/-- The ways to write words as one name. -/
inductive Spelling where
  | camel
  | pascal
  | snake
  | kebab
  | dotted
  | spaced
  deriving Repr, DecidableEq

namespace Spelling

/-- A word with its first letter as a capital. -/
def raised (w : List Char) : List Char := w.modifyHead Char.toUpper

/-- Words as one name.  Where no separator sets them off from each other, capitals do. -/
def write : Spelling → List (List Char) → List Char
  | camel, [] => []
  | camel, w :: ws => w ++ ws.flatMap raised
  | pascal, ws => ws.flatMap raised
  | snake, ws => ['_'].intercalate ws
  | kebab, ws => ['-'].intercalate ws
  | dotted, ws => ['.'].intercalate ws
  | spaced, ws => [' '].intercalate ws

end Spelling

/-- Words that can be told apart in every spelling: a small letter, and small letters or digits
behind it.  There is at least one of these, as a single letter runs together with a capital behind
it. -/
structure IsSpellable (w : List Char) : Prop where
  letter : w.head?.any isSmall = true
  rest_ne_nil : w.tail ≠ []
  rest : ∀ c ∈ w.tail, isWordChar c = true

instance (w : List Char) : Decidable (IsSpellable w) :=
  decidable_of_iff (w.head?.any isSmall = true ∧ w.tail ≠ [] ∧ w.tail.all isWordChar = true)
    ⟨fun h => ⟨h.1, h.2.1, List.all_eq_true.1 h.2.2⟩,
      fun h => ⟨h.letter, h.rest_ne_nil, List.all_eq_true.2 h.rest⟩⟩

namespace IsSpellable

variable {w : List Char} {ws : List (List Char)}

theorem exists_cons (h : IsSpellable w) : ∃ c cs, w = c :: cs ∧ isSmall c = true ∧ cs ≠ [] ∧
    ∀ d ∈ cs, isWordChar d = true := by
  obtain ⟨hletter, hne, hrest⟩ := h
  cases w with
  | nil => exact absurd rfl hne
  | cons c cs => exact ⟨c, cs, rfl, by simpa using hletter, hne, hrest⟩

theorem isWord (h : IsSpellable w) : IsWord w := by
  obtain ⟨c, cs, rfl, hc, -, hcs⟩ := h.exists_cons
  refine ⟨List.cons_ne_nil c cs, fun d hd => ?_⟩
  rcases List.mem_cons.1 hd with rfl | hd
  · simp [isWordChar, hc]
  · exact hcs d hd

/-- With its capital, a word is told apart from what stands before it and behind it. -/
theorem exists_raised (h : IsSpellable w) : ∃ c cs, Spelling.raised w = c :: cs ∧
    isCapital c = true ∧ (c :: cs).getLast?.any isWordChar = true ∧ words (c :: cs) = [w] := by
  obtain ⟨c, cs, rfl, hc, hne, hcs⟩ := id h.exists_cons
  refine ⟨c.toUpper, cs, rfl, isCapital_toUpper hc, ?_, words_cons (keyChars_toUpper hc) h.isWord⟩
  rw [List.getLast?_cons_of_ne_nil hne]
  exact isWordChar_getLast? hne hcs

/-- Words with capitals can be read back, whatever word they stand behind. -/
theorem words_append_flatMap_raised {cs : List Char} (hcs : cs.getLast?.any isWordChar = true)
    (h : ∀ w ∈ ws, IsSpellable w) : words (cs ++ ws.flatMap Spelling.raised) = words cs ++ ws := by
  induction ws generalizing cs with
  | nil => rw [List.flatMap_nil, List.append_nil, List.append_nil]
  | cons w ws ih =>
      obtain ⟨d, ds, hraised, hd, hlast, hwords⟩ := (h w List.mem_cons_self).exists_raised
      rw [List.flatMap_cons, hraised, List.cons_append, words_append_of_isCapital hcs hd,
        ← List.cons_append, ih hlast fun v hv => h v (List.mem_cons_of_mem w hv), hwords,
        List.singleton_append]

end IsSpellable

/-- Words can be read back from every spelling. -/
theorem Spelling.words_write (spelling : Spelling) {ws : List (List Char)}
    (h : ∀ w ∈ ws, IsSpellable w) : words (spelling.write ws) = ws := by
  have hwords : ∀ w ∈ ws, IsWord w := fun w hw => (h w hw).isWord
  cases spelling with
  | camel =>
      cases ws with
      | nil => rfl
      | cons w ws =>
          have hw := (h w List.mem_cons_self).isWord
          have hlast := isWordChar_getLast? hw.ne_nil hw.chars
          rw [write, IsSpellable.words_append_flatMap_raised hlast
            fun v hv => h v (List.mem_cons_of_mem w hv), words_of_isWord hw, List.singleton_append]
  | pascal =>
      cases ws with
      | nil => rfl
      | cons w ws =>
          obtain ⟨c, cs, hraised, -, hlast, hcs⟩ := (h w List.mem_cons_self).exists_raised
          rw [write, List.flatMap_cons, hraised, IsSpellable.words_append_flatMap_raised hlast
            fun v hv => h v (List.mem_cons_of_mem w hv), hcs, List.singleton_append]
  | snake => exact words_intercalate (by decide) hwords
  | kebab => exact words_intercalate (by decide) hwords
  | dotted => exact words_intercalate (by decide) hwords
  | spaced => exact words_intercalate (by decide) hwords

/-- The key of a name is in normal form and its own key; and all spellings of some words have the
same key, the words joined by underscores. -/
theorem isKey_key_and_key_write :
    (∀ name, IsKey (key name) ∧ key (key name) = key name) ∧
      ∀ ws : List (List Char), (∀ w ∈ ws, IsSpellable w) → ∀ spelling : Spelling,
        key (String.ofList (spelling.write ws)) = String.ofList (['_'].intercalate ws) := by
  refine ⟨fun name => ⟨isKey_key name, key_eq_self_iff.2 (isKey_key name)⟩, ?_⟩
  intro ws hws spelling
  rw [key, String.toList_ofList, spelling.words_write hws, joinWords_eq]

/-- The words of `petOwnerId2`. -/
def petOwnerWords : List (List Char) := ["pet".toList, "owner".toList, "id2".toList]

theorem key_petOwner :
    (∀ w ∈ petOwnerWords, IsSpellable w) ∧ key "petOwnerId2" = "pet_owner_id2" ∧
      key "PetOwnerId2" = "pet_owner_id2" ∧ key "pet.owner.id2" = "pet_owner_id2" := by
  have hwords : ∀ w ∈ petOwnerWords, IsSpellable w := by decide
  have hkey := isKey_key_and_key_write.2 petOwnerWords hwords
  have hcamel : "petOwnerId2" = String.ofList (Spelling.camel.write petOwnerWords) := by
    decide
  have hpascal : "PetOwnerId2" = String.ofList (Spelling.pascal.write petOwnerWords) := by
    decide
  have hdotted : "pet.owner.id2" = String.ofList (Spelling.dotted.write petOwnerWords) := by
    decide
  rw [hcamel, hpascal, hdotted, hkey, hkey, hkey]
  exact ⟨hwords, by decide⟩

/-- Single letters run together, so this is no spelling of three words. -/
example : Spelling.camel.write [['a'], ['b'], ['c']] = "aBC".toList ∧ key "aBC" = "a_bc" := by
  decide

/-- Names of variables: ASCII letters, digits and underscores without a digit in front, but not the
name that a method keeps for its own object. -/
structure IsVariable (name : String) : Prop where
  ne_empty : name ≠ ""
  chars : ∀ c ∈ name.toList, isNameChar c = true
  start : name.toList.head?.any isDigit = false
  ne_own : name ≠ "this"

theorem isVariable_variableName (name : String) : IsVariable (variableName name) := by
  have hchars : ∀ c ∈ (variableName name).toList, isNameChar c = true :=
    fun c hc => isNameChar_of_mem_variableName hc
  have hne : hump (parts name) ≠ [] := hump_ne_nil (areParts_parts name) (parts_ne_nil name)
  rw [variableName_eq, decorated_eq] at hchars ⊢
  split_ifs at hchars ⊢ with hown hdigit
  · rw [hown] at hchars ⊢
    exact ⟨by decide, hchars, by decide, by decide⟩
  · refine ⟨by simp, hchars, by simp [isDigit], fun h => ?_⟩
    have hlist := congrArg String.toList h
    simp at hlist
  · refine ⟨by simpa using hne, hchars, by simpa using hdigit, fun h => hown ?_⟩
    simpa [ownWord] using congrArg String.toList h

/-- The letters and digits of a name, without regard to case and underscores. -/
def letters (name : String) : List Char := (name.toList.map Char.toLower).filter (· ≠ '_')

/-- The letters and digits of a key are those of its words. -/
theorem letters_key (name : String) : letters (key name) = (words name.toList).flatten := by
  have hjoined {ws : List (List Char)} (h : ∀ w ∈ ws, IsWord w) :
      ((['_'].intercalate ws).map Char.toLower).filter (· ≠ '_') = ws.flatten := by
    induction ws with
    | nil => rfl
    | cons w ws ih =>
        have hw : (w.map Char.toLower).filter (· ≠ '_') = w := by
          rw [map_toLower_of_isWordChar (h w List.mem_cons_self).chars]
          exact filter_of_underscore_notMem (h w List.mem_cons_self).underscore_notMem
        cases ws with
        | nil => rw [List.intercalate_singleton, hw, List.flatten_singleton]
        | cons v vs =>
            rw [List.intercalate_cons_cons, List.append_assoc, List.map_append, List.filter_append,
              hw, List.flatten_cons, ← ih fun v hv => h v (List.mem_cons_of_mem w hv)]
            rfl
  rw [letters, toList_key]
  exact hjoined fun _ hw => isWord_of_mem_words hw

theorem key_eq_empty_iff {name : String} : key name = "" ↔ words name.toList = [] := by
  constructor
  · intro h
    rw [← words_key, h]
    rfl
  · intro h
    rw [key, h]
    rfl

/-- The variable of a name has the letters and digits of its key, if the key has any. -/
theorem letters_variableName (name : String) :
    letters (variableName name) = letters (if key name = "" then "param" else key name) := by
  have hparts : letters (variableName name) = (parts name).flatten := by
    rw [letters, ← toList_toLower, filter_toLower_variableName]
  rw [hparts]
  split_ifs with hkey
  · rw [parts, key_eq_empty_iff.1 hkey]
    decide
  · rw [letters_key, flatten_parts (mt key_eq_empty_iff.2 hkey)]

/-- The variable of a name can be used as one, and it has the letters and digits of the name's key;
names with the same key have the same variable. -/
theorem isVariable_and_letters_and_eq_of_key_eq :
    (∀ name, IsVariable (variableName name) ∧
      letters (variableName name) = letters (if key name = "" then "param" else key name)) ∧
      ∀ name other, key name = key other → variableName name = variableName other := by
  refine ⟨fun name => ⟨isVariable_variableName name, letters_variableName name⟩, ?_⟩
  intro name other h
  have hwords : words name.toList = words other.toList := by rw [← words_key name, h, words_key]
  unfold variableName
  rw [hwords]

theorem variableName_customerId :
    key "customerId" = key "Customer-ID" ∧ variableName "customerId" = variableName "Customer-ID" ∧
      variableName "customerId" = "customerId" := by
  have hkey : key "customerId" = key "Customer-ID" := by decide
  exact ⟨hkey, isVariable_and_letters_and_eq_of_key_eq.2 _ _ hkey, by decide⟩

end OpenApiClient.Name
