import OpenApiClient.Text.Basic
import OpenApiClient.Text.Cells

/-!
# Wrapping lines

A line that is wider than there is room for is cut between words, where the blanks after a
word stay with it.  A word that fits on no line is cut wherever the room ends.  Widths are
counted in cells.  Cutting loses nothing: the pieces make up the line.
-/

namespace OpenApiClient.Text

/-- A row of characters cut wherever a blank is followed by something solid. -/
def runs : List Char → List (List Char)
  | [] => []
  | [c] => [[c]]
  | c :: d :: rest =>
    if isBlank c && !isBlank d then [c] :: runs (d :: rest)
    else match runs (d :: rest) with
      | [] => [[c]]
      | r :: rs => (c :: r) :: rs

/-- The words of a line, each with the blanks after it; the first one also with those before
it. -/
def words (cs : List Char) : List (List Char) :=
  match runs cs with
  | first :: second :: rest =>
    if first.all isBlank then (first ++ second) :: rest else first :: second :: rest
  | rs => rs

/-- A word in pieces that each fit into a width, as long as possible one after the other; the
first piece begins where so many cells are taken. -/
def fold (width : Nat) : Nat → List Char → List (List Char)
  | _, [] => [[]]
  | used, c :: rest =>
    if width < used + cells c then
      match fold width (cells c) rest with
      | [] => [[], [c]]
      | p :: ps => [] :: (c :: p) :: ps
    else match fold width (used + cells c) rest with
      | [] => [[c]]
      | p :: ps => (c :: p) :: ps

/-- Puts words into lines of a width, after a line that has been begun and the cells that are
taken on it. -/
def fillLines (width : Nat) : List Char → Nat → List (List Char) → List (List Char)
  | line, _, [] => [line]
  | line, used, word :: rest =>
    let solid := textCells (trimRight isBlank word)
    if used + solid ≤ width then
      fillLines width (line ++ word) (used + textCells word) rest
    else if width < solid then
      let folded := fold width 0 word
      let last := folded.getLastD []
      (if line.isEmpty then [] else [line]) ++ folded.dropLast ++
        fillLines width last (textCells last) rest
    else if used = 0 || line.isEmpty then fillLines width (line ++ word) used rest
    else line :: fillLines width word (textCells word) rest

/-- A line in pieces that fit into a width but for blanks at their ends. -/
def wrap (width : Nat) (cs : List Char) : List (List Char) :=
  fillLines width [] 0 (words cs)

/-- The row of characters without the blanks at its end that lie beyond a width. -/
def trimBeyond (width : Nat) (cs : List Char) : List Char :=
  let excess := cs.length - width
  let blanks := (cs.reverse.takeWhile isBlank).length
  cs.take (cs.length - min excess blanks)

/-- What of a row of characters fits into so many cells, filled up with blanks where a
character is cut off. -/
def crop : Nat → List Char → List Char
  | _, [] => []
  | room, c :: rest =>
    if cells c ≤ room then c :: crop (room - cells c) rest else List.replicate room ' '

/-- The distance between tab stops. -/
def tabStop : Nat := 8

/-- A line with every tab filled up with blanks to the next tab stop, from a column on. -/
def expandTabs : Nat → List Char → List Char
  | _, [] => []
  | column, '\t' :: rest =>
    let filled := tabStop - column % tabStop
    List.replicate filled ' ' ++ expandTabs (column + filled) rest
  | column, c :: rest => c :: expandTabs (column + cells c) rest

/-- A row of characters as lines of a width. -/
def toLines (width : Nat) (cs : List Char) : List (List Char) :=
  (pieces '\n' cs).flatMap fun line =>
    (wrap width (expandTabs 0 line)).map fun l => crop width (trimBeyond width l)

/-- The runs make up the row. -/
theorem flatten_runs (cs : List Char) : (runs cs).flatten = cs := by
  fun_induction runs cs with
  | case1 => rfl
  | case2 => rfl
  | case3 c d rest h ih => simp [ih]
  | case4 c d rest h hr ih => simp [hr] at ih
  | case5 c d rest h r rs hr ih => simpa [hr] using ih

/-- The words make up the line. -/
theorem flatten_words (cs : List Char) : (words cs).flatten = cs := by
  have h := flatten_runs cs
  unfold words
  split
  · split <;> simp_all
  · exact h

/-- The pieces make up the word. -/
theorem flatten_fold (width used : Nat) (cs : List Char) :
    (fold width used cs).flatten = cs := by
  fun_induction fold width used cs with
  | case1 => rfl
  | case2 used c rest h hf ih => simp [hf] at ih; simp [ih]
  | case3 used c rest h p ps hf ih => simpa [hf] using ih
  | case4 used c rest h hf ih => simp [hf] at ih; simp [ih]
  | case5 used c rest h p ps hf ih => simpa [hf] using ih

/-- A word has a piece. -/
theorem fold_ne_nil (width used : Nat) (cs : List Char) : fold width used cs ≠ [] := by
  cases cs with
  | nil => simp [fold]
  | cons c rest =>
    unfold fold
    split <;> split <;> simp

/-- The lines make up the words. -/
theorem flatten_fillLines (width : Nat) (line : List Char) (used : Nat)
    (ws : List (List Char)) :
    (fillLines width line used ws).flatten = line ++ ws.flatten := by
  fun_induction fillLines width line used ws with
  | case1 => simp
  | case2 line used word rest solid h ih => simp [ih]
  | case3 line used word rest solid h h' folded last ih =>
    have hf : folded.dropLast ++ [last] = folded := by
      have hne := fold_ne_nil width 0 word
      simp only [last, folded]
      rw [List.getLastD_eq_getLast?, List.getLast?_eq_some_getLast hne]
      exact List.dropLast_concat_getLast hne
    have hw : folded.dropLast.flatten ++ last = word := by
      have := congrArg List.flatten hf
      simpa [folded, flatten_fold] using this
    have hl : (if line.isEmpty then [] else [line]).flatten = line := by
      cases line <;> simp
    rw [List.flatten_append, List.flatten_append, hl, ih, ← hw]
    simp
  | case4 line used word rest solid h h' h'' ih => simp [ih]
  | case5 line used word rest solid h h' h'' ih => simp [ih]

/-- The lines make up the line that was wrapped. -/
theorem flatten_wrap (width : Nat) (cs : List Char) : (wrap width cs).flatten = cs := by
  simp [wrap, flatten_fillLines, flatten_words]

end OpenApiClient.Text
