import Mathlib.Data.List.Infix
import OpenApiClient.Php.Method
import OpenApiClient.Proofs.Layout

/-!
# Comments in PHP

PHP is read a character at a time, and the reader needs to know only what it is in the middle of:
`Mode`.  What is left of a text without its comments and its literals is its code.  Texts in double
quotes are read without regard to variables in them, and texts between labels are not known; no file
has either.

A comment is over with its first `*/`.  So what is written into a comment stays there exactly if it
does not contain these two characters; and where the parts of a text do not touch with these two,
it contains them exactly if one of its parts does.
-/

namespace OpenApiClient.Php

open Text

/-- What a reader of PHP is in the middle of. -/
inductive Mode where
  /-- Text outside of PHP. -/
  | text
  /-- Text outside of PHP that ends with `<`. -/
  | opening
  | code
  /-- Code that ends with `?`. -/
  | question
  /-- Code, and then a slash that may begin a comment. -/
  | slash
  /-- A comment that ends with its line. -/
  | line
  /-- A comment that ends with its line, and has `?` at its end so far. -/
  | lineQuestion
  /-- A comment that ends with `*/`. -/
  | block
  /-- A comment that ends with `*/`, and has `*` at its end so far. -/
  | star
  | literal (quote : Char)
  /-- A literal, and then a backslash. -/
  | escape (quote : Char)
  deriving DecidableEq, Repr

namespace Mode

/-- Where a character leads in code, and what of it is code. -/
def inCode (c : Char) : Mode × List Char :=
  if c = '/' then (slash, [])
  else if c = '#' then (line, [])
  else if c = '?' then (question, [c])
  else if c = '\'' || c = '"' || c = '`' then (literal c, [c])
  else (code, [c])

/-- Where a character leads in a comment that ends with its line, and what of it is code. -/
def inLine (c : Char) : Mode × List Char :=
  if c = '\n' || c = '\r' then (code, [c])
  else if c = '?' then (lineQuestion, [])
  else (line, [])

/-- Where a character leads, and what is known to be code then. -/
def step : Mode → Char → Mode × List Char
  | text, c => (if c = '<' then opening else text, [c])
  | opening, c => (if c = '?' then code else if c = '<' then opening else text, [c])
  | code, c => inCode c
  | question, c => if c = '>' then (text, [c]) else inCode c
  | slash, c =>
    if c = '/' then (line, [])
    else if c = '*' then (block, [])
    else ((inCode c).1, '/' :: (inCode c).2)
  | line, c => inLine c
  | lineQuestion, c => if c = '>' then (text, ['?', c]) else inLine c
  | block, c => (if c = '*' then star else block, [])
  | star, c => (if c = '/' then code else if c = '*' then star else block, [])
  | literal quote, c =>
    if c = '\\' then (escape quote, [])
    else if c = quote then (code, [c])
    else (literal quote, [])
  | escape quote, _ => (literal quote, [])

/-- Where characters lead. -/
def after : Mode → List Char → Mode
  | m, [] => m
  | m, c :: cs => after (m.step c).1 cs

/-- What of characters is code. -/
def outside : Mode → List Char → List Char
  | _, [] => []
  | m, c :: cs => (m.step c).2 ++ outside (m.step c).1 cs

variable {m : Mode} {cs cs' : List Char}

@[simp] theorem after_nil : m.after [] = m := rfl

@[simp] theorem after_cons {c : Char} : m.after (c :: cs) = (m.step c).1.after cs := rfl

@[simp] theorem outside_nil : m.outside [] = [] := rfl

@[simp] theorem outside_cons {c : Char} :
    m.outside (c :: cs) = (m.step c).2 ++ (m.step c).1.outside cs := rfl

theorem after_append : m.after (cs ++ cs') = (m.after cs).after cs' := by
  induction cs generalizing m with
  | nil => rfl
  | cons c cs ih => exact ih

theorem outside_append : m.outside (cs ++ cs') = m.outside cs ++ (m.after cs).outside cs' := by
  induction cs generalizing m with
  | nil => rfl
  | cons c cs ih =>
      rw [List.cons_append, outside_cons, outside_cons, ih, List.append_assoc, after_cons]

/-- Inside of a comment that ends with `*/`. -/
def IsComment (m : Mode) : Prop := m = block ∨ m = star

/-- What of the end of the comment is there. -/
def pending : Mode → List Char
  | star => ['*']
  | _ => []

/-- What is read inside of a comment is no code. -/
theorem IsComment.outside_eq_nil (h : ∀ start, start <+: cs → (m.after start).IsComment) :
    m.outside cs = [] := by
  induction cs generalizing m with
  | nil => rfl
  | cons c cs ih =>
      have hcomment : m.IsComment := h [] (List.nil_prefix)
      have hnone : (m.step c).2 = [] := by
        rcases hcomment with rfl | rfl <;> rfl
      rw [outside_cons, hnone, List.nil_append]
      exact ih fun start hstart => h (c :: start) (List.cons_prefix_cons.2 ⟨rfl, hstart⟩)

end Mode

section Closing

variable {a b : Char} {l l' : List Char}

theorem pair_infix_cons {c : Char} :
    [a, b] <:+: c :: l ↔ (c = a ∧ l.head? = some b) ∨ [a, b] <:+: l := by
  rw [List.infix_cons_iff, List.cons_prefix_cons]
  refine or_congr_left (and_congr eq_comm ?_)
  cases l with
  | nil => simp
  | cons d l => simp [eq_comm]

/-- Two characters are next to each other in one of two rows, or where the rows touch. -/
theorem pair_infix_append : [a, b] <:+: l ++ l' ↔
    [a, b] <:+: l ∨ [a, b] <:+: l' ∨ (l.getLast? = some a ∧ l'.head? = some b) := by
  induction l with
  | nil => simp
  | cons c l ih =>
      rw [List.cons_append, pair_infix_cons, pair_infix_cons, ih]
      cases l with
      | nil => simp [or_comm]
      | cons d l => simp [or_assoc]

end Closing

/-- A text with the two characters that end a comment. -/
def Closes (s : String) : Prop := ['*', '/'] <:+: s.toList

instance (s : String) : Decidable (Closes s) :=
  inferInstanceAs (Decidable (['*', '/'] <:+: s.toList))

theorem Closes.append_iff_of_last {s t : String} (h : s.toList.getLast? ≠ some '*') :
    Closes (s ++ t) ↔ Closes s ∨ Closes t := by
  simp [Closes, pair_infix_append, h]

theorem Closes.append_iff_of_first {s t : String} (h : t.toList.head? ≠ some '/') :
    Closes (s ++ t) ↔ Closes s ∨ Closes t := by
  simp [Closes, pair_infix_append, h]

/-- What has no end of a comment and is in no danger of beginning one does not matter. -/
theorem Closes.append_iff_right {s t : String} (h : s.toList.getLast? ≠ some '*')
    (hs : ¬ Closes s) : Closes (s ++ t) ↔ Closes t := by
  rw [append_iff_of_last h, or_iff_right hs]

/-- The starts of a row are the empty one, and the starts of what follows its first character. -/
theorem forall_prefix_cons_iff {α : Type} {c : α} {cs : List α} {P : List α → Prop} :
    (∀ start, start <+: c :: cs → P start) ↔ P [] ∧ ∀ start, start <+: cs → P (c :: start) := by
  simp only [List.prefix_cons_iff]
  constructor
  · exact fun h => ⟨h [] (.inl rfl), fun start hstart => h _ (.inr ⟨start, rfl, hstart⟩)⟩
  · rintro ⟨hnil, hcons⟩ start (rfl | ⟨start, rfl, hstart⟩)
    · exact hnil
    · exact hcons start hstart

namespace Mode

variable {m : Mode}

/-- Inside of a comment, a character leads out of it exactly if it is the last one of its end. -/
theorem IsComment.step (hm : m.IsComment) (c : Char) (cs : List Char) :
    (m.step c).1 = code ∧ ['*', '/'] <:+: m.pending ++ c :: cs ∨
      (m.step c).1.IsComment ∧ (['*', '/'] <:+: m.pending ++ c :: cs ↔
        ['*', '/'] <:+: (m.step c).1.pending ++ cs) := by
  rcases hm with rfl | rfl
  · right
    by_cases hstar : c = '*'
    · subst hstar
      exact ⟨.inr rfl, Iff.rfl⟩
    · have hstep : (block.step c).1 = block := if_neg hstar
      rw [hstep]
      exact ⟨.inl rfl, by simp [pending, pair_infix_cons, hstar]⟩
  · by_cases hslash : c = '/'
    · subst hslash
      exact .inl ⟨rfl, [], cs, rfl⟩
    · right
      by_cases hstar : c = '*'
      · subst hstar
        exact ⟨.inr rfl, by simp [step, pending, pair_infix_cons]⟩
      · have hstep : (star.step c).1 = block := (if_neg hslash).trans (if_neg hstar)
        rw [hstep]
        exact ⟨.inl rfl, by simp [pending, pair_infix_cons, hslash, hstar]⟩

/-- Inside of a comment a reader stays there exactly as long as its end does not come. -/
theorem forall_isComment_iff (hm : m.IsComment) (cs : List Char) :
    (∀ start, start <+: cs → (m.after start).IsComment) ↔ ¬ ['*', '/'] <:+: m.pending ++ cs := by
  induction cs generalizing m with
  | nil =>
      rcases hm with rfl | rfl <;> simp [pending, IsComment, pair_infix_cons]
  | cons c cs ih =>
      rw [forall_prefix_cons_iff]
      simp only [after_nil, after_cons, hm, true_and]
      rcases hm.step c cs with ⟨hcode, hinfix⟩ | ⟨hcomment, hsame⟩
      · refine iff_of_false (fun h => ?_) (not_not_intro hinfix)
        have hnil := h [] List.nil_prefix
        rw [after_nil, hcode] at hnil
        rcases hnil with h | h <;> cases h
      · rw [ih hcomment, hsame]

end Mode

/-- One of the texts has these two characters. -/
def AnyCloses (texts : List String) : Prop := ∃ s ∈ texts, Closes s

section Lines

variable {lines lines' : List String} {line : String} {depth : Nat}

@[simp] theorem anyCloses_nil : ¬ AnyCloses [] := by simp [AnyCloses]

@[simp] theorem anyCloses_cons : AnyCloses (line :: lines) ↔ Closes line ∨ AnyCloses lines := by
  simp [AnyCloses]

@[simp] theorem anyCloses_append :
    AnyCloses (lines ++ lines') ↔ AnyCloses lines ∨ AnyCloses lines' := by
  simp [AnyCloses, or_and_right, exists_or]

@[simp] theorem ofLines_nil : ofLines [] = "" := rfl

theorem ofLines_cons : ofLines (line :: lines) = line ++ "\n" ++ ofLines lines :=
  join_empty_cons _ _

theorem ofLines_append : ofLines (lines ++ lines') = ofLines lines ++ ofLines lines' := by
  induction lines with
  | nil => simp
  | cons line lines ih => simp only [List.cons_append, ofLines_cons, ih, String.append_assoc]

/-- The characters of lines. -/
def charsOf (lines : List String) : List Char := lines.flatMap (·.toList ++ ['\n'])

theorem toList_ofLines : (ofLines lines).toList = charsOf lines := by
  induction lines with
  | nil => rfl
  | cons line lines ih =>
      rw [ofLines_cons, String.toList_append, String.toList_append, ih]
      rfl

theorem anyCloses_map {f : String → String} (h : ∀ line, Closes (f line) ↔ Closes line) :
    AnyCloses (lines.map f) ↔ AnyCloses lines := by
  simp [AnyCloses, h]

theorem closes_ofLines_iff : Closes (ofLines lines) ↔ AnyCloses lines := by
  induction lines with
  | nil => simp [Closes]
  | cons line lines ih =>
      have hend : ¬ Closes "\n" := by decide
      rw [ofLines_cons, Closes.append_iff_of_last (by simp),
        Closes.append_iff_of_first (by simp), ih]
      simp [hend]

/-- The first line of a text begins as the text does, if it begins with anything. -/
theorem head?_of_lines_eq_cons {cs l : List Char} {ls : List (List Char)}
    (h : Text.lines cs = l :: ls) : l.head? = cs.head?.filter (!endsLine ·) := by
  unfold Text.lines at h
  split at h
  · cases h
  · cases h
    rfl
  · next c rest _ =>
      rw [List.head?_cons, Option.filter_some]
      split at h
      · next hend =>
          cases h
          simp [hend]
      · next hend => split at h <;> (cases h; simp [hend])

/-- Only the empty text has no lines. -/
theorem eq_nil_of_lines_eq_nil {cs : List Char} (h : Text.lines cs = []) : cs = [] := by
  unfold Text.lines at h
  split at h
  · rfl
  · cases h
  · split at h
    · cases h
    · split at h <;> cases h

/-- Two characters that end no line stand in a line of a text if they stand in the text. -/
theorem pair_infix_lines {a b : Char} (ha : endsLine a = false) (hb : endsLine b = false)
    (cs : List Char) : (∃ l ∈ Text.lines cs, [a, b] <:+: l) ↔ [a, b] <:+: cs := by
  have hne {c d : Char} (hc : endsLine c = false) (hd : endsLine d = true) : d ≠ c := by
    rintro rfl
    rw [hc] at hd
    cases hd
  fun_induction Text.lines cs with
  | case1 => simp
  | case2 rest ih =>
      have hreturn : '\r' ≠ a := hne ha rfl
      have hfeed : '\n' ≠ a := hne ha rfl
      simp [pair_infix_cons, hreturn, hfeed, ih]
  | case3 c rest _ hend ih => simp [pair_infix_cons, hne ha hend, ih]
  | case4 c rest _ hend hlines ih =>
      obtain rfl := eq_nil_of_lines_eq_nil hlines
      simp
  | case5 c rest _ hend l ls hlines ih =>
      rw [hlines] at ih
      have hhead : l.head? = some b ↔ rest.head? = some b := by
        rw [head?_of_lines_eq_cons hlines, Option.filter_eq_some_iff]
        simp [hb]
      rw [List.exists_mem_cons_iff] at ih
      rw [List.exists_mem_cons_iff, pair_infix_cons, pair_infix_cons, hhead, or_assoc]
      exact or_congr_right ih

theorem anyCloses_textLines_iff {s : String} : AnyCloses (textLines s) ↔ Closes s := by
  rw [Closes, ← pair_infix_lines rfl rfl]
  simp [textLines, AnyCloses, Closes]

/-- The lines of a comment at a depth, with those in between. -/
def commentLines (depth : Nat) (lines : List String) : List String :=
  (indentation depth ++ "/**") :: lines ++ [indentation depth ++ " */"]

theorem commentLines_zero : commentLines 0 lines = "/**" :: lines ++ [" */"] := rfl

theorem commentLines_one : commentLines 1 lines = "    /**" :: lines ++ ["     */"] := rfl

/-- What stands in a comment before the slash that ends it. -/
def insideOf (depth : Nat) (lines : List String) : String :=
  "*\n" ++ ofLines lines ++ indentation depth ++ " *"

theorem charsOf_commentLines : charsOf (commentLines depth lines) =
    (indentation depth).toList ++ '/' :: '*' :: (insideOf depth lines).toList ++ ['/', '\n'] := by
  simp [← toList_ofLines, commentLines, insideOf, ofLines_cons, ofLines_append]

theorem not_closes_indentation (depth : Nat) : ¬ Closes (indentation depth) := by
  intro h
  have hmem : '*' ∈ (indentation depth).toList := h.subset List.mem_cons_self
  rw [indentation, String.toList_ofList] at hmem
  exact absurd (List.eq_of_mem_replicate hmem) (by decide)

theorem closes_insideOf_iff : Closes (insideOf depth lines) ↔ AnyCloses lines := by
  have hstart : ¬ Closes "*\n" := by decide
  have hstop : ¬ Closes " *" := by decide
  have hindentation : (indentation depth).toList.head? ≠ some '/' := by
    simp [indentation, List.head?_replicate]
  rw [insideOf, Closes.append_iff_of_first (by simp), Closes.append_iff_of_first hindentation,
    Closes.append_iff_of_last (by simp), closes_ofLines_iff]
  simp [hstart, hstop, not_closes_indentation]

/-- The comment is over with its last line, and not before. -/
def IsClosed (depth : Nat) (lines : List String) : Prop :=
  ∀ start, start <+: (insideOf depth lines).toList → (Mode.block.after start).IsComment

/-- A comment is over with its last line exactly if no other line has its end. -/
theorem isClosed_iff_not_anyCloses : IsClosed depth lines ↔ ¬ AnyCloses lines := by
  have hinside := Mode.forall_isComment_iff (.inl rfl) (insideOf depth lines).toList
  rw [IsClosed, hinside, show Mode.block.pending ++ (insideOf depth lines).toList =
    (insideOf depth lines).toList from rfl, ← Closes, closes_insideOf_iff]

instance : Decidable (AnyCloses lines) :=
  inferInstanceAs (Decidable (∃ line ∈ lines, Closes line))

instance : Decidable (IsClosed depth lines) := decidable_of_iff _ isClosed_iff_not_anyCloses.symm

example : IsClosed 1 ["     * GET /pets/*", "     * /pets/"] ∧
    ¬ IsClosed 1 ["     * GET /pets/*/name"] := by
  decide

namespace Mode

theorem after_indentation : code.after (indentation depth).toList = code := by
  rw [indentation, String.toList_ofList]
  induction 4 * depth with
  | zero => rfl
  | succ n ih => exact ih

theorem outside_indentation :
    code.outside (indentation depth).toList = (indentation depth).toList := by
  rw [indentation, String.toList_ofList]
  induction 4 * depth with
  | zero => rfl
  | succ n ih => exact congrArg (' ' :: ·) ih

theorem after_start : code.after ('/' :: '*' :: cs) = block.after cs := rfl

theorem outside_start : code.outside ('/' :: '*' :: cs) = block.outside cs := rfl

/-- In front of its last slash, a comment that is over with its last line has only to end. -/
theorem after_insideOf (h : IsClosed depth lines) :
    block.after (insideOf depth lines).toList = star := by
  have hcomment :
      (block.after ("*\n" ++ ofLines lines ++ indentation depth ++ " ").toList).IsComment :=
    h _ ⟨['*'], by simp [insideOf]⟩
  rw [show insideOf depth lines = "*\n" ++ ofLines lines ++ indentation depth ++ " " ++ "*" by
    simp [insideOf, String.append_assoc], String.toList_append, after_append]
  rcases hcomment with h | h <;> rw [h] <;> rfl

theorem after_commentLines (h : IsClosed depth lines) :
    code.after (charsOf (commentLines depth lines)) = code := by
  rw [charsOf_commentLines, List.append_assoc, after_append, after_indentation, List.cons_append,
    List.cons_append, after_start, after_append, after_insideOf h]
  rfl

/-- Of a comment that is over with its last line only its surroundings are code. -/
theorem outside_commentLines (h : IsClosed depth lines) :
    code.outside (charsOf (commentLines depth lines)) =
      (indentation depth).toList ++ ['\n'] := by
  rw [charsOf_commentLines, List.append_assoc, outside_append, after_indentation,
    outside_indentation, List.cons_append, List.cons_append, outside_start, outside_append,
    IsComment.outside_eq_nil h, after_insideOf h]
  rfl

end Mode

end Lines

end OpenApiClient.Php
