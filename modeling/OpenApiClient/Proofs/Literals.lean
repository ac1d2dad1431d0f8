import OpenApiClient.Proofs.UniqueReading

/-!
# Reading literals

A literal is read as the text that it was written for, and its last quote is the only place where
the reading ends: nothing that stands in the text, be it quotes or backslashes, ends it earlier.

So what literals and keys in brackets are put together to can be read back in only one way, whatever
else stands between them, as long as that has no quote and no bracket that opens.
-/

namespace OpenApiClient.Php

open Text

variable {cs : List Char}

/-- Puts a backslash in front of a character wherever it occurs. -/
def hide (c : Char) (cs : List Char) : List Char :=
  cs.flatMap fun x => if x = c then ['\\', x] else [x]

/-- A text may be encoded in two passes, the first of which hides the backslashes. -/
theorem hide_hide (cs : List Char) : hide '\'' (hide '\\' cs) = encode cs := by
  unfold hide encode
  rw [List.flatMap_assoc]
  refine List.flatMap_congr fun c _ => ?_
  by_cases hbackslash : c = '\\'
  · simp [hbackslash, escapeChar]
  · by_cases hquote : c = '\''
    · simp [hquote, escapeChar]
    · simp [hbackslash, hquote, escapeChar]

theorem quote_eq (s : String) : (quote s).toList = '\'' :: (encode s.toList ++ ['\'']) := by
  rw [quote, String.toList_ofList, List.cons_append]

/-- Reading does not go on behind the quote at which it ends. -/
theorem decode?_append {text after : List Char} (h : decode? cs = some (text, after))
    (more : List Char) : decode? (cs ++ more) = some (text, after ++ more) := by
  have hmap {rest : List Char} {add : List Char × List Char → List Char × List Char}
      (hadd : ∀ text after, add (text, after ++ more) =
        ((add (text, after)).1, (add (text, after)).2 ++ more))
      (ih : ∀ {text after}, decode? rest = some (text, after) →
        decode? (rest ++ more) = some (text, after ++ more))
      {text after : List Char} (h : (decode? rest).map add = some (text, after)) :
      (decode? (rest ++ more)).map add = some (text, after ++ more) := by
    obtain ⟨⟨cs, after'⟩, hread, heq⟩ := Option.map_eq_some_iff.1 h
    rw [ih hread, Option.map_some, hadd, heq]
  fun_induction decode? cs generalizing text after with
  | case1 => cases h
  | case2 rest =>
      cases h
      rfl
  | case3 rest ih => exact hmap (fun _ _ => rfl) ih h
  | case4 rest ih => exact hmap (fun _ _ => rfl) ih h
  | case5 c rest hend hbackslash hquote ih =>
      -- There is a next character, so none that is added is taken together with this one.
      have hne : rest ≠ [] := by
        rintro rfl
        cases h
      obtain ⟨d, rest, rfl⟩ := List.exists_cons_of_ne_nil hne
      rw [List.cons_append, decode?]
      · exact hmap (fun _ _ => rfl) ih h
      · exact hend
      · intro rest' hc heq
        exact hbackslash rest hc (congrArg (· :: rest) (List.cons.inj heq).1)
      · intro rest' hc heq
        exact hquote rest hc (congrArg (· :: rest) (List.cons.inj heq).1)

/-- A literal of a text is a body between quotes.  Whatever stands behind the literal, the body is
read as the text up to the last quote, and the reading does not end inside of it. -/
def IsLiteral (literal s : String) : Prop :=
  ∃ body, literal.toList = '\'' :: (body ++ ['\'']) ∧
    (∀ after, decode? (body ++ '\'' :: after) = some (s.toList, after)) ∧
    ∀ start, start <+: body → decode? start = none

theorem isLiteral_quote (s : String) : IsLiteral (quote s) s := by
  refine ⟨encode s.toList, quote_eq s, decode?_encode s.toList, ?_⟩
  rintro start ⟨more, hmore⟩
  cases hread : decode? start with
  | none => rfl
  | some found =>
      obtain ⟨text, after⟩ := found
      -- The last quote would be left over.
      have hlonger := decode?_append hread (more ++ ['\''])
      rw [← List.append_assoc, hmore, decode?_encode] at hlonger
      simp at hlonger

/-- What can be told apart in code: a literal, a key in brackets, and any character with which
neither of these begins. -/
inductive Fragment where
  | literal (s : String)
  | key (s : String)
  | plain (c : Char) (h : c ≠ '\'' ∧ c ≠ '[')

/-- A fragment as it is written. -/
def Fragment.text : Fragment → List Char
  | literal s => (quote s).toList
  | key s => '[' :: ((quote s).toList ++ [']'])
  | plain c _ => [c]

/-- What fragments are put together to. -/
def textOf (fragments : List Fragment) : List Char := fragments.flatMap Fragment.text

theorem textOf_cons (fragment : Fragment) (fragments : List Fragment) :
    textOf (fragment :: fragments) = fragment.text ++ textOf fragments := List.flatMap_cons

theorem textOf_append (fragments others : List Fragment) :
    textOf (fragments ++ others) = textOf fragments ++ textOf others := List.flatMap_append

/-- How code is read, from its start to its end. -/
inductive Reads : List Char → List Fragment → Prop
  | nil : Reads [] []
  | literal {body cs after : List Char} {fragments : List Fragment}
      (hread : decode? body = some (cs, after)) (hafter : Reads after fragments) :
      Reads ('\'' :: body) (.literal (String.ofList cs) :: fragments)
  | key {body cs after : List Char} {fragments : List Fragment}
      (hread : decode? body = some (cs, ']' :: after)) (hafter : Reads after fragments) :
      Reads ('[' :: '\'' :: body) (.key (String.ofList cs) :: fragments)
  | plain {c : Char} {after : List Char} {fragments : List Fragment} (h : c ≠ '\'' ∧ c ≠ '[')
      (hafter : Reads after fragments) : Reads (c :: after) (.plain c h :: fragments)

/-- Code is read in one way only. -/
theorem Reads.unique {fragments others : List Fragment} (h : Reads cs fragments)
    (h' : Reads cs others) : others = fragments := by
  induction h generalizing others with
  | nil =>
      cases h'
      rfl
  | literal hread hafter ih =>
      cases h' with
      | literal hread' hafter' =>
          cases hread.symm.trans hread'
          rw [ih hafter']
      | plain h => exact absurd rfl h.1
  | key hread hafter ih =>
      cases h' with
      | key hread' hafter' =>
          cases hread.symm.trans hread'
          rw [ih hafter']
      | plain h => exact absurd rfl h.2
  | plain h hafter ih =>
      cases h' with
      | literal hread' hafter' => exact absurd rfl h.1
      | key hread' hafter' => exact absurd rfl h.2
      | plain h hafter' => rw [ih hafter']

theorem reads_textOf (fragments : List Fragment) : Reads (textOf fragments) fragments := by
  induction fragments with
  | nil => exact .nil
  | cons fragment fragments ih =>
      rw [textOf_cons]
      cases fragment with
      | literal s =>
          have hreads := Reads.literal (decode?_encode s.toList (textOf fragments)) ih
          rw [String.ofList_toList] at hreads
          simpa [Fragment.text, quote_eq] using hreads
      | key s =>
          have hreads := Reads.key (decode?_encode s.toList (']' :: textOf fragments)) ih
          rw [String.ofList_toList] at hreads
          simpa [Fragment.text, quote_eq] using hreads
      | plain c h => exact .plain h ih

/-- The variable of a binding has neither quotes nor brackets in it. -/
theorem plain_of_mem_variableOf (b : Binding) :
    ∀ c ∈ (variableOf b).toList, c ≠ '\'' ∧ c ≠ '[' := by
  have hplain (s : String) (h : s.toList.all (fun c => c ≠ '\'' && c ≠ '[') = true) :
      ∀ c ∈ s.toList, c ≠ '\'' ∧ c ≠ '[' :=
    fun c hc => by simpa using List.all_eq_true.1 h c hc
  cases b with
  | body depth =>
      have hbody := hplain "$responseBody" (by decide)
      exact hbody
  | element depth =>
      have helement := hplain "$element" (by decide)
      intro c hc
      rw [variableOf, String.toList_append] at hc
      rcases List.mem_append.1 hc with hc | hc
      · exact helement c hc
      · have hdigit := isDigit_of_mem_toString depth c hc
        constructor <;> rintro rfl <;> exact absurd hdigit (by decide)

/-- The fragments of a read without a guard: the characters of its variable, and its keys. -/
def Fragment.ofRead (read : FieldRead) : List Fragment :=
  (variableOf read.binding).toList.pmap .plain (plain_of_mem_variableOf read.binding) ++
    read.path.map .key

theorem textOf_ofRead (read : FieldRead) :
    textOf (Fragment.ofRead read) = (accessOf read).toList := by
  have hvariable (cs : List Char) (h : ∀ c ∈ cs, c ≠ '\'' ∧ c ≠ '[') :
      textOf (cs.pmap .plain h) = cs := by
    induction cs with
    | nil => rfl
    | cons c cs ih => exact congrArg (c :: ·) (ih fun d hd => h d (List.mem_cons_of_mem c hd))
  have hkeys (path : List String) : textOf (path.map .key) = (keysOf path).toList := by
    induction path with
    | nil => rfl
    | cons key path ih =>
        have hcons := keysOf_cons_append key path []
        rw [List.append_nil, List.append_nil] at hcons
        rw [List.map_cons, textOf_cons, ih, hcons]
        simp [Fragment.text, quote_eq]
  rw [Fragment.ofRead, textOf_append, hvariable, hkeys, accessOf, ← keysOf, String.toList_append]

/-- A text between quotes, with its backslashes hidden and then its quotes, is a literal of it; and
what fragments are put together to is read as these fragments and as no others, be it the read of a
field or anything else. -/
theorem isLiteral_quote_and_reads_iff :
    (∀ s, (quote s).toList = '\'' :: (hide '\'' (hide '\\' s.toList) ++ ['\'']) ∧
      IsLiteral (quote s) s) ∧
      (∀ fragments others, Reads (textOf fragments) others ↔ others = fragments) ∧
      ∀ read others, Reads (accessOf read).toList others ↔ others = Fragment.ofRead read := by
  have hreads (fragments others : List Fragment) :
      Reads (textOf fragments) others ↔ others = fragments :=
    ⟨fun h => (reads_textOf fragments).unique h, fun h => h ▸ reads_textOf fragments⟩
  refine ⟨fun s => ⟨?_, isLiteral_quote s⟩, hreads, fun read others => ?_⟩
  · rw [hide_hide, quote_eq]
  · rw [← textOf_ofRead]
    exact hreads (Fragment.ofRead read) others

/-- A backslash at the end of a text does not hide the last quote. -/
example : quote "it's a\\" = "'it\\'s a\\\\'" ∧
    decode? "it\\'s a\\\\'] . 'b'".toList = some ("it's a\\".toList, "] . 'b'".toList) := by
  decide

end OpenApiClient.Php
