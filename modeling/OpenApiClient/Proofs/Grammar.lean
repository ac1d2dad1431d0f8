import OpenApiClient.Proofs.Numerals
import OpenApiClient.Proofs.RoundTrip

/-!
# Texts that are JSON

What is written for a value: words, numerals, texts between quotes, lists and objects, with blanks
between the tokens.  The value of an object has an entry for each name, under the last value that
stands with it, and its mappings have one origin.  The grammar is told by the texts alone, and not
by the reader, which has to find out where each part of a text ends.
-/

namespace OpenApiClient.Json

/-! ### Texts -/

/-- The first of two code units that are one character. -/
def IsHigh (n : Nat) : Prop := 0xd800 ≤ n ∧ n < 0xdc00

/-- The second of two code units that are one character. -/
def IsLow (n : Nat) : Prop := 0xdc00 ≤ n ∧ n < 0xe000

/-- A code unit with which none of the characters behind it makes one character. -/
def StandsAlone (n : Nat) (cs : List Char) : Prop :=
  IsHigh n → ∀ ds rest low, cs = '\\' :: 'u' :: (ds ++ rest) → ds.length = 4 → hex4? ds = some low →
    ¬ IsLow low

/-- What stands between quotes, and the characters that it means. -/
inductive IsText : List Char → List Char → Prop
  | nil : IsText [] []
  | plain {c : Char} {cs t : List Char} (hquote : c ≠ '"') (hslash : c ≠ '\\')
      (hcontrol : ¬ c.toNat < 32) (h : IsText cs t) : IsText (c :: cs) (c :: t)
  | escape {e x : Char} {cs t : List Char} (he : escape? e = some x) (h : IsText cs t) :
      IsText ('\\' :: e :: cs) (x :: t)
  | unit {ds cs t : List Char} {n : Nat} (hlength : ds.length = 4) (hds : hex4? ds = some n)
      (halone : StandsAlone n cs) (h : IsText cs t) :
      IsText ('\\' :: 'u' :: (ds ++ cs)) (unitChar n :: t)
  | pair {ds es cs t : List Char} {high low : Nat} (hlength : ds.length = 4)
      (hds : hex4? ds = some high) (hhigh : IsHigh high) (hlength' : es.length = 4)
      (hes : hex4? es = some low) (hlow : IsLow low) (h : IsText cs t) :
      IsText ('\\' :: 'u' :: (ds ++ '\\' :: 'u' :: (es ++ cs)))
        (Char.ofNat (0x10000 + (high - 0xd800) * 0x400 + (low - 0xdc00)) :: t)

section Texts

variable {ds es cs t rest : List Char} {n low : Nat}

theorem exists_of_hex4? (h : hex4? cs = some n) :
    ∃ ds rest, cs = ds ++ rest ∧ ds.length = 4 ∧ hex4? ds = some n := by
  match cs, h with
  | a :: b :: c :: d :: rest, h => exact ⟨[a, b, c, d], rest, rfl, rfl, h⟩

/-- Behind a backslash and the letter that announces digits, digits stand. -/
theorem IsText.exists_hex (h : IsText ('\\' :: 'u' :: cs) t) :
    ∃ ds rest low, cs = ds ++ rest ∧ ds.length = 4 ∧ hex4? ds = some low := by
  cases h with
  | plain hquote hslash => exact absurd rfl hslash
  | escape he => cases he
  | unit hlength hds => exact ⟨_, _, _, rfl, hlength, hds⟩
  | pair hlength hds => exact ⟨_, _, _, rfl, hlength, hds⟩

/-- A code unit that is followed by another one may be the first half of a character. -/
theorem unicodeEscape_joined (position : Nat) (hlength : ds.length = 4) (hds : hex4? ds = some n)
    (hn : IsHigh n) (hlength' : es.length = 4) (hrest : rest ≠ []) :
    unicodeEscape position (ds ++ '\\' :: 'u' :: (es ++ rest)) =
      match hex4? es with
      | none => .error (.problem .invalidUnicodeEscape (position + 6))
      | some low =>
        if 0xdc00 ≤ low && low < 0xe000 then
          .ok (Char.ofNat (0x10000 + (n - 0xd800) * 0x400 + (low - 0xdc00)), 10)
        else .ok (unitChar n, 4) := by
  have hafter : (ds ++ '\\' :: 'u' :: (es ++ rest)).drop 4 = '\\' :: 'u' :: (es ++ rest) :=
    List.drop_left' hlength
  have hbehind : ('\\' :: 'u' :: (es ++ rest)).drop 6 = rest := List.drop_left' hlength'
  have hdrop : ('\\' :: 'u' :: (es ++ rest)).drop 2 = es ++ rest := rfl
  have hjoin : (0xd800 ≤ n && n < 0xdc00 && !rest.isEmpty &&
      ('\\' :: 'u' :: (es ++ rest)).take 2 = ['\\', 'u']) = true := by
    simp [hn.1, hn.2, hrest]
  unfold unicodeEscape
  dsimp only
  rewrite [hafter, hbehind, hdrop, hex4?_append hlength, hex4?_append hlength', hds]
  exact (if_neg Bool.false_ne_true).trans (if_pos hjoin)

theorem unicodeEscape_alone (position : Nat) (hlength : ds.length = 4) (hds : hex4? ds = some n)
    (hne : cs ≠ [])
    (halone : IsHigh n → ∀ es rest, cs = '\\' :: 'u' :: (es ++ rest) → es.length = 4 → rest = []) :
    unicodeEscape position (ds ++ cs) = .ok (unitChar n, 4) := by
  have hafter : (ds ++ cs).drop 4 = cs := List.drop_left' hlength
  rw [unicodeEscape, hafter, hex4?_append hlength, hds, List.isEmpty_eq_false_iff.2 hne,
    if_neg Bool.false_ne_true]
  refine if_neg fun hjoin => ?_
  simp only [Bool.and_eq_true, decide_eq_true_eq, Bool.not_eq_true', List.isEmpty_eq_false_iff]
    at hjoin
  obtain ⟨⟨hn, hbehind⟩, htake⟩ := hjoin
  have hcs : cs = '\\' :: 'u' :: cs.drop 2 := by
    rw [← List.take_append_drop 2 cs, htake]
    rfl
  have hdrop : (cs.drop 2).drop 4 ≠ [] := by rwa [List.drop_drop]
  refine hdrop (halone hn ((cs.drop 2).take 4) _ ?_ ?_)
  · rw [List.take_append_drop, ← hcs]
  · rw [Ne, List.drop_eq_nil_iff] at hdrop
    rw [List.length_take]
    omega

/-- The ways in which an escape of a code unit is read. -/
theorem unicodeEscape_cases {position width : Nat} {x : Char}
    (h : unicodeEscape position cs = .ok (x, width)) :
    ∃ ds after n, cs = ds ++ after ∧ ds.length = 4 ∧ hex4? ds = some n ∧ after ≠ [] ∧
      (x = unitChar n ∧ width = 4 ∧
          (IsHigh n → ∀ es rest low, after = '\\' :: 'u' :: (es ++ rest) → es.length = 4 →
            hex4? es = some low → rest ≠ [] → ¬ IsLow low) ∨
        IsHigh n ∧ ∃ es rest low, after = '\\' :: 'u' :: (es ++ rest) ∧ es.length = 4 ∧
          hex4? es = some low ∧ IsLow low ∧ width = 10 ∧
          x = Char.ofNat (0x10000 + (n - 0xd800) * 0x400 + (low - 0xdc00))) := by
  have hne : cs.drop 4 ≠ [] := fun hnil => by simp [unicodeEscape, hnil] at h
  have hread : hex4? cs ≠ none := fun hnone => by simp [unicodeEscape, hnone, hne] at h
  obtain ⟨n, hn⟩ := Option.ne_none_iff_exists'.1 hread
  obtain ⟨ds, after, rfl, hlength, hds⟩ := exists_of_hex4? hn
  rw [List.drop_left' hlength] at hne
  refine ⟨ds, after, n, rfl, hlength, hds, hne, ?_⟩
  by_cases hjoined : IsHigh n ∧ ∃ es rest, after = '\\' :: 'u' :: (es ++ rest) ∧ es.length = 4 ∧
      rest ≠ []
  · obtain ⟨hhigh, es, rest, rfl, hlength', hrest⟩ := hjoined
    rw [unicodeEscape_joined position hlength hds hhigh hlength' hrest] at h
    cases hes : hex4? es with
    | none => simp [hes] at h
    | some low =>
        rw [hes] at h
        dsimp only at h
        split at h
        · next hlow =>
            rw [Bool.and_eq_true, decide_eq_true_eq, decide_eq_true_eq] at hlow
            obtain ⟨rfl, rfl⟩ := Prod.mk.inj (Except.ok.inj h)
            exact .inr ⟨hhigh, es, rest, low, rfl, hlength', hes, hlow, rfl, rfl⟩
        · next hlow =>
            rw [Bool.and_eq_true, decide_eq_true_eq, decide_eq_true_eq] at hlow
            obtain ⟨rfl, rfl⟩ := Prod.mk.inj (Except.ok.inj h)
            refine .inl ⟨rfl, rfl, fun _ es' rest' low' heq hlength'' hes' _ => ?_⟩
            obtain ⟨rfl, -⟩ := List.append_inj (List.cons.inj (List.cons.inj heq).2).2
              (hlength'.trans hlength''.symm)
            obtain rfl := Option.some.inj (hes.symm.trans hes')
            exact hlow
  · have halone := unicodeEscape_alone position hlength hds hne fun hhigh es rest heq hes => by
      by_contra hrest
      exact hjoined ⟨hhigh, es, rest, heq, hes, hrest⟩
    rw [halone] at h
    obtain ⟨rfl, rfl⟩ := Prod.mk.inj (Except.ok.inj h)
    exact .inl ⟨rfl, rfl, fun hhigh es rest low heq hes _ hrest =>
      absurd ⟨hhigh, es, rest, heq, hes, hrest⟩ hjoined⟩

/-- A code unit that stands alone is read as such. -/
theorem unicodeEscape_unit (position : Nat) (hlength : ds.length = 4) (hds : hex4? ds = some n)
    (halone : StandsAlone n cs) (h : IsText cs t) (rest : List Char) :
    unicodeEscape position (ds ++ (cs ++ '"' :: rest)) = .ok (unitChar n, 4) := by
  by_cases hjoined : IsHigh n ∧ ∃ tail, cs = '\\' :: 'u' :: tail
  · obtain ⟨hhigh, tail, rfl⟩ := hjoined
    obtain ⟨es, tail, low, rfl, hlength', hes⟩ := h.exists_hex
    have hlow := halone hhigh es tail low rfl hlength' hes
    have hjoin := unicodeEscape_joined position hlength hds hhigh hlength'
      (show tail ++ '"' :: rest ≠ [] by simp)
    rw [List.cons_append, List.cons_append, List.append_assoc, hjoin, hes]
    exact if_neg (by simpa [IsLow] using hlow)
  · refine unicodeEscape_alone position hlength hds (by simp) fun hhigh es tail heq _ => ?_
    match cs, heq with
    | [], heq => cases heq
    | [c], heq => cases heq
    | c :: c' :: cs, heq =>
        simp only [List.cons_append, List.cons.injEq] at heq
        exact absurd ⟨hhigh, cs, by rw [heq.1, heq.2.1]⟩ hjoined

theorem textFrom_cons (start fuel position : Nat) (read : List Char) (c : Char) (rest : List Char) :
    textFrom start (fuel + 1) position read (c :: rest) =
      if c = '"' then .ok (String.ofList read.reverse, rest, position + 1)
      else if c.toNat < 32 then .error (.problem .controlCharacter position)
      else if c = '\\' then
        match rest with
        | [] => .error (.problem .unterminatedText start)
        | 'u' :: rest =>
          match unicodeEscape (position + 1) rest with
          | .error stop => .error stop
          | .ok (x, width) =>
            textFrom start fuel (position + 2 + width) (x :: read) (rest.drop width)
        | e :: rest =>
          match escape? e with
          | none => .error (.problem .invalidEscape position)
          | some x => textFrom start fuel (position + 2) (x :: read) rest
      else textFrom start fuel (position + 1) (c :: read) rest := rfl

theorem textFrom_unit {position width : Nat} {x : Char}
    (h : unicodeEscape (position + 1) cs = .ok (x, width)) (start fuel : Nat) (read : List Char) :
    textFrom start (fuel + 1) position read ('\\' :: 'u' :: cs) =
      textFrom start fuel (position + 2 + width) (x :: read) (cs.drop width) := by
  simp [textFrom, h]

theorem textFrom_escape {e x : Char} (he : escape? e = some x) (start fuel position : Nat)
    (read cs : List Char) :
    textFrom start (fuel + 1) position read ('\\' :: e :: cs) =
      textFrom start fuel (position + 2) (x :: read) cs := by
  have hu : e ≠ 'u' := by
    rintro rfl
    cases he
  simp [textFrom, he]

/-- What is read behind a backslash. -/
theorem textFrom_backslash_cases {start fuel position : Nat} {read : List Char}
    {r : String × List Char × Nat}
    (h : textFrom start (fuel + 1) position read ('\\' :: cs) = .ok r) :
    (∃ tail x width, cs = 'u' :: tail ∧ unicodeEscape (position + 1) tail = .ok (x, width) ∧
      textFrom start fuel (position + 2 + width) (x :: read) (tail.drop width) = .ok r) ∨
    ∃ e x tail, cs = e :: tail ∧ escape? e = some x ∧
      textFrom start fuel (position + 2) (x :: read) tail = .ok r := by
  rw [textFrom_cons, if_neg (by decide), if_neg (by decide), if_pos rfl] at h
  split at h
  · cases h
  · next tail =>
      cases hunit : unicodeEscape (position + 1) tail with
      | error stop => simp [hunit] at h
      | ok found =>
          rw [hunit] at h
          exact .inl ⟨tail, found.1, found.2, rfl, hunit, h⟩
  · next e tail _ =>
      cases he : escape? e with
      | none => simp [he] at h
      | some x =>
          rw [he] at h
          exact .inr ⟨e, x, tail, rfl, he, h⟩

/-- What is written between quotes is read up to the quote that closes it. -/
theorem textFrom_append (h : IsText cs t) (start : Nat) {fuel : Nat} (position : Nat)
    (read rest : List Char) (hfuel : cs.length < fuel) :
    ∃ position', textFrom start fuel position read (cs ++ '"' :: rest) =
      .ok (String.ofList (read.reverse ++ t), rest, position') := by
  obtain ⟨fuel, rfl⟩ := Nat.exists_eq_succ_of_ne_zero (Nat.ne_of_gt (Nat.zero_lt_of_lt hfuel))
  have hstep {x : Char} {read t : List Char} :
      read.reverse ++ x :: t = (x :: read).reverse ++ t := by simp
  induction h generalizing fuel position read with
  | nil => exact ⟨position + 1, by simp [textFrom]⟩
  | @plain c cs t hquote hslash hcontrol h ih =>
      rw [List.length_cons] at hfuel
      obtain ⟨fuel, rfl⟩ := Nat.exists_eq_succ_of_ne_zero (n := fuel) (by omega)
      obtain ⟨position', hread⟩ := ih (position + 1) (c :: read) fuel (by omega)
      refine ⟨position', ?_⟩
      rw [hstep, ← hread, List.cons_append, textFrom_cons, if_neg hquote, if_neg hcontrol,
        if_neg hslash]
  | @escape e x cs t he h ih =>
      rw [List.length_cons, List.length_cons] at hfuel
      obtain ⟨fuel, rfl⟩ := Nat.exists_eq_succ_of_ne_zero (n := fuel) (by omega)
      obtain ⟨position', hread⟩ := ih (position + 2) (x :: read) fuel (by omega)
      refine ⟨position', ?_⟩
      rw [hstep, ← hread, List.cons_append, List.cons_append, textFrom_escape he]
  | @unit ds cs t n hlength hds halone h ih =>
      rw [List.length_cons, List.length_cons, List.length_append] at hfuel
      obtain ⟨fuel, rfl⟩ := Nat.exists_eq_succ_of_ne_zero (n := fuel) (by omega)
      obtain ⟨position', hread⟩ := ih (position + 2 + 4) (unitChar n :: read) fuel (by omega)
      refine ⟨position', ?_⟩
      have hunit := unicodeEscape_unit (position + 1) hlength hds halone h rest
      rw [hstep, ← hread, List.cons_append, List.cons_append, List.append_assoc,
        textFrom_unit hunit, List.drop_left' hlength]
  | @pair ds es cs t high low hlength hds hhigh hlength' hes hlow h ih =>
      simp only [List.length_cons, List.length_append] at hfuel
      obtain ⟨fuel, rfl⟩ := Nat.exists_eq_succ_of_ne_zero (n := fuel) (by omega)
      obtain ⟨position', hread⟩ := ih (position + 2 + 10)
        (Char.ofNat (0x10000 + (high - 0xd800) * 0x400 + (low - 0xdc00)) :: read) fuel (by omega)
      refine ⟨position', ?_⟩
      have hjoin := unicodeEscape_joined (position + 1) hlength hds hhigh hlength'
        (show cs ++ '"' :: rest ≠ [] by simp)
      rw [hes] at hjoin
      have hjoin' := hjoin.trans (if_pos (by simpa [IsLow] using hlow))
      have hdrop :
          (ds ++ '\\' :: 'u' :: (es ++ (cs ++ '"' :: rest))).drop 10 = cs ++ '"' :: rest := by
        have happend : ds ++ '\\' :: 'u' :: (es ++ (cs ++ '"' :: rest)) =
            (ds ++ '\\' :: 'u' :: es) ++ (cs ++ '"' :: rest) := by simp
        rw [happend]
        exact List.drop_left' (by simp [hlength, hlength'])
      rw [hstep, ← hread]
      simp only [List.cons_append, List.append_assoc]
      rw [textFrom_unit hjoin', hdrop]

/-- What is read up to a quote is a text. -/
theorem exists_of_textFrom {start fuel position position' : Nat} {read : List Char} {s : String}
    (h : textFrom start fuel position read cs = .ok (s, rest, position')) :
    ∃ body t, cs = body ++ '"' :: rest ∧ IsText body t ∧ s = String.ofList (read.reverse ++ t) := by
  induction fuel generalizing position read cs with
  | zero => cases h
  | succ fuel ih =>
      cases cs with
      | nil => cases h
      | cons c cs =>
          by_cases hslash : c = '\\'
          · subst hslash
            rcases textFrom_backslash_cases h with ⟨tail, x, width, rfl, hunit, h⟩ |
              ⟨e, x, tail, rfl, he, h⟩
            · obtain ⟨ds, after, n, rfl, hlength, hds, -, hcases⟩ := unicodeEscape_cases hunit
              rcases hcases with ⟨rfl, rfl, halone⟩ |
                ⟨hhigh, es, tail, low, rfl, hlength', hes, hlow, rfl, hx⟩
              · rw [List.drop_left' hlength] at h
                obtain ⟨body, t, rfl, htext, rfl⟩ := ih h
                refine ⟨'\\' :: 'u' :: (ds ++ body), unitChar n :: t, by simp,
                  .unit hlength hds ?_ htext, by simp⟩
                intro hhigh es tail low heq hlength' hes
                exact halone hhigh es (tail ++ '"' :: rest) low (by simp [heq]) hlength' hes
                  (by simp)
              · have happend : ds ++ '\\' :: 'u' :: (es ++ tail) =
                    (ds ++ '\\' :: 'u' :: es) ++ tail := by simp
                have hwidth : (ds ++ '\\' :: 'u' :: es).length = 10 := by
                  rw [List.length_append, List.length_cons, List.length_cons, hlength, hlength']
                rw [happend, List.drop_left' hwidth] at h
                obtain ⟨body, t, rfl, htext, rfl⟩ := ih h
                refine ⟨'\\' :: 'u' :: (ds ++ '\\' :: 'u' :: (es ++ body)), x :: t, by simp, ?_,
                  by simp⟩
                rw [hx]
                exact .pair hlength hds hhigh hlength' hes hlow htext
            · obtain ⟨body, t, rfl, htext, rfl⟩ := ih h
              exact ⟨'\\' :: e :: body, x :: t, rfl, .escape he htext, by simp⟩
          · rw [textFrom_cons] at h
            split at h
            · next hquote =>
                obtain ⟨rfl, rfl, -⟩ : _ ∧ _ ∧ _ := by simpa using h
                exact ⟨[], [], by rw [hquote]; rfl, .nil, by rw [List.append_nil]⟩
            · next hquote =>
                split at h
                · cases h
                · next hcontrol =>
                    obtain ⟨body, t, rfl, htext, rfl⟩ := ih h
                    exact ⟨c :: body, c :: t, rfl, .plain hquote hslash hcontrol htext, by simp⟩

theorem unicodeEscape_ne_tooManyDigits (position : Nat) (cs : List Char) :
    unicodeEscape position cs ≠ .error .tooManyDigits := by
  unfold unicodeEscape
  split
  · simp
  · split
    · simp
    · dsimp only
      repeat' split
      all_goals simp

/-- No text has too many digits. -/
theorem textFrom_ne_tooManyDigits (start fuel position : Nat) (read cs : List Char) :
    textFrom start fuel position read cs ≠ .error .tooManyDigits := by
  induction fuel generalizing position read cs with
  | zero => simp [textFrom]
  | succ fuel ih =>
      cases cs with
      | nil => simp [textFrom]
      | cons c cs =>
          rw [textFrom_cons]
          repeat' split
          all_goals first
            | exact ih _ _ _
            | simp
          next stop hstop =>
            rintro rfl
            exact unicodeEscape_ne_tooManyDigits _ _ hstop

end Texts

/-! ### Values -/

/-- A value in a list, with the blanks around it. -/
structure Item where
  before : List Char
  text : List Char
  after : List Char
  value : Value

namespace Item

def written (i : Item) : List Char := i.before ++ (i.text ++ i.after)

structure IsSpaced (i : Item) : Prop where
  before : AllSpace i.before
  after : AllSpace i.after

end Item

/-- A name in an object with the blanks around it. -/
structure Label where
  before : List Char
  text : List Char
  after : List Char
  name : String

namespace Label

/-- A name is written up to its colon. -/
def written (l : Label) : List Char := l.before ++ '"' :: (l.text ++ '"' :: (l.after ++ [':']))

structure IsSpelled (l : Label) : Prop where
  before : AllSpace l.before
  after : AllSpace l.after
  text : IsText l.text l.name.toList

end Label

/-- An entry of an object. -/
structure Member where
  label : Label
  item : Item

namespace Member

def written (m : Member) : List Char := m.label.written ++ m.item.written

def entry (m : Member) : Scalar × Value := (.str m.label.name, m.item.value)

end Member

/-- Each part with a comma behind it. -/
def separated {α : Type} (written : α → List Char) (parts : List α) : List Char :=
  parts.flatMap fun part => written part ++ [',']

/-- What is written for a value. -/
inductive IsValue : List Char → Value → Prop
  | word {w : String} {s : Scalar} (h : (w, s) ∈ words) : IsValue w.toList (.scalar s)
  | number {n : Numeral} {cs : List Char} {v : Value} (h : IsNumeral n cs) (hv : n.value = .ok v) :
      IsValue cs v
  | text {cs : List Char} {s : String} (h : IsText cs s.toList) :
      IsValue ('"' :: (cs ++ ['"'])) (.str s)
  | emptyList {space : List Char} (h : AllSpace space) : IsValue ('[' :: (space ++ [']'])) (.seq [])
  | list {items : List Item} {last : Item} (hspaced : ∀ i ∈ items ++ [last], i.IsSpaced)
      (h : ∀ i ∈ items ++ [last], IsValue i.text i.value) :
      IsValue ('[' :: (separated Item.written items ++ (last.written ++ [']'])))
        (.seq ((items ++ [last]).map (·.value)))
  | emptyObject {space : List Char} (h : AllSpace space) :
      IsValue ('{' :: (space ++ ['}'])) (.map 0 [])
  | object {members : List Member} {last : Member}
      (hspelled : ∀ m ∈ members ++ [last], m.label.IsSpelled)
      (hspaced : ∀ m ∈ members ++ [last], m.item.IsSpaced)
      (h : ∀ m ∈ members ++ [last], IsValue m.item.text m.item.value) :
      IsValue ('{' :: (separated Member.written members ++ (last.written ++ ['}'])))
        (.map 0 (Value.ofPairs ((members ++ [last]).map Member.entry)))

/-- A value up to a first integer with too many digits. -/
inductive Overflows : List Char → Prop
  | number {n : Numeral} {cs rest : List Char} (h : IsNumeral n cs) (hfraction : n.fraction = none)
      (hexponent : n.exponent = none) (hlimit : Text.digitLimit < n.whole.length)
      (hrest : Stops rest) : Overflows (cs ++ rest)
  | list {items : List Item} {before rest : List Char} (hspaced : ∀ i ∈ items, i.IsSpaced)
      (h : ∀ i ∈ items, IsValue i.text i.value) (hbefore : AllSpace before)
      (hrest : Overflows rest) :
      Overflows ('[' :: (separated Item.written items ++ (before ++ rest)))
  | object {members : List Member} {label : Label} {before rest : List Char}
      (hspelled : ∀ m ∈ members, m.label.IsSpelled) (hspaced : ∀ m ∈ members, m.item.IsSpaced)
      (h : ∀ m ∈ members, IsValue m.item.text m.item.value) (hlabel : label.IsSpelled)
      (hbefore : AllSpace before) (hrest : Overflows rest) :
      Overflows ('{' :: (separated Member.written members ++ (label.written ++ (before ++ rest))))

/-- A text that is JSON and stands for a value. -/
inductive IsJson : List Char → Value → Prop
  | intro {before cs after : List Char} {v : Value} (hbefore : AllSpace before) (h : IsValue cs v)
      (hafter : AllSpace after) : IsJson (before ++ (cs ++ after)) v

/-- A text that is JSON up to a first integer with too many digits. -/
inductive HasLongInteger : List Char → Prop
  | intro {before cs : List Char} (hbefore : AllSpace before) (h : Overflows cs) :
      HasLongInteger (before ++ cs)

end OpenApiClient.Json
