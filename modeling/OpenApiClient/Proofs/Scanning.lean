import OpenApiClient.Yaml.Token

/-!
# What a YAML text is refused for

While tokens are read, the cursor only moves on.  What is refused on the way is an escape beyond the
last code point, or a number of a version with too many digits, and both stand in the text.
-/

namespace OpenApiClient.Yaml

/-- What stands in a text and is refused, and how. -/
inductive OutOfRange (cs : List Char) : Refusal → Prop
  | notACharacter {letter : Char} {digits : List Char} {n : Nat} :
      '\\' :: letter :: digits <:+: cs → escapeWidth? letter = some digits.length →
      hexNumber? digits = some n → 0x110000 ≤ n → n < 0x80000000 → OutOfRange cs .notACharacter
  | tooLarge {letter : Char} {digits : List Char} {n : Nat} :
      '\\' :: letter :: digits <:+: cs → escapeWidth? letter = some digits.length →
      hexNumber? digits = some n → 0x80000000 ≤ n → OutOfRange cs .tooLarge
  | notANumber {digits : List Char} : digits <:+: cs → (∀ d ∈ digits, '0' ≤ d ∧ d ≤ '9') →
      Text.digitLimit < digits.length → OutOfRange cs .notANumber

/-! ### Cursors move on -/

theorem Cursor.rest_next {c : Cursor} {x : Char} {rest : List Char} (h : c.rest = x :: rest) :
    c.next.rest = rest := by
  rw [Cursor.next, h]
  dsimp only
  split <;> rfl

theorem Cursor.rest_eq_of_peek {c : Cursor} {x : Char} (h : c.peek = x) (hx : x ≠ endMark) :
    c.rest = x :: c.next.rest := by
  cases hrest : c.rest with
  | nil =>
      rw [Cursor.peek, hrest] at h
      exact absurd h.symm hx
  | cons y rest =>
      rw [Cursor.peek, hrest] at h
      rw [Cursor.rest_next hrest, ← h]
      rfl

/-- What is left at a cursor is the end of a text. -/
def Cursor.IsIn (c : Cursor) (cs : List Char) : Prop := c.rest <:+ cs

namespace Cursor.IsIn

variable {cs : List Char} {c : Cursor}

theorem next (h : c.IsIn cs) : c.next.IsIn cs := by
  cases hrest : c.rest with
  | nil => rwa [Cursor.next, hrest]
  | cons x rest =>
      rw [Cursor.IsIn, Cursor.rest_next hrest]
      exact (List.suffix_cons x rest).trans (hrest ▸ h)

theorem advance (h : c.IsIn cs) (n : Nat) : (c.advance n).IsIn cs := by
  induction n generalizing c with
  | zero => exact h
  | succ n ih => exact ih h.next

theorem takeWhile (h : c.IsIn cs) (p : Char → Bool) : (c.takeWhile p).2.IsIn cs := h.advance _

theorem skipWhile (h : c.IsIn cs) (p : Char → Bool) : (c.skipWhile p).IsIn cs := h.advance _

theorem skipSpaces (h : c.IsIn cs) : c.skipSpaces.IsIn cs := h.skipWhile _

theorem skipComment (h : c.IsIn cs) : c.skipComment.IsIn cs := by
  unfold Cursor.skipComment
  split
  · exact h.skipWhile _
  · exact h

theorem lineBreak (h : c.IsIn cs) : c.lineBreak.2.IsIn cs := by
  unfold Cursor.lineBreak
  dsimp only
  split
  · exact h.advance 2
  split
  · exact h.next
  split
  · exact h.next
  · exact h

theorem of_lineBreak {b : Option Char} {c' : Cursor} (h : c.IsIn cs)
    (hbreak : c.lineBreak = (b, c')) : c'.IsIn cs := by
  have hin := h.lineBreak
  rwa [hbreak] at hin

end Cursor.IsIn

/-! ### Results -/

/-- A result that holds what it should; it is refused only for a reason. -/
def Reads {α : Type} (R : Refusal → Prop) (P : α → Prop) : Except Stop α → Prop
  | .ok x => P x
  | .error .malformed => True
  | .error (.refused r) => R r

/-- The cursor behind what was read. -/
abbrev EndsIn {α : Type} (cs : List Char) (x : α × Cursor) : Prop := x.2.IsIn cs

namespace Reads

variable {α β : Type} {R : Refusal → Prop} {P : α → Prop} {Q : β → Prop} {x : Except Stop α}
  {f : α → Except Stop β}

theorem bind (h : Reads R P x) (hf : ∀ a, P a → Reads R Q (f a)) : Reads R Q (x >>= f) := by
  cases x with
  | ok a => exact hf a h
  | error stop =>
      cases stop with
      | malformed => trivial
      | refused r => exact h

theorem ite {p : Prop} [Decidable p] {y : Except Stop α} (hx : p → Reads R P x)
    (hy : ¬ p → Reads R P y) : Reads R P (if p then x else y) := by
  split
  · next h => exact hx h
  · next h => exact hy h

theorem of_ok {a : α} (h : Reads R P x) (hx : x = .ok a) : P a := by
  rwa [hx] at h

/-- A stop is handed on. -/
theorem of_error {stop : Stop} (h : Reads R P x) (hx : x = .error stop) :
    Reads R Q (.error stop) := by
  rw [hx] at h
  cases stop with
  | malformed => trivial
  | refused r => exact h

end Reads

section Scanners

variable {cs : List Char} {c : Cursor}

theorem reads_endLine (h : c.IsIn cs) : Reads (OutOfRange cs) (·.IsIn cs) c.endLine := by
  unfold Cursor.endLine
  dsimp only
  split
  · exact h.skipSpaces.skipComment.lineBreak
  · trivial

/-! ### Quoted texts -/

/-- The digits of an escape are refused if their number is that of no character. -/
theorem reads_hexEscape {letter : Char} {width : Nat} (hwidth : escapeWidth? letter = some width)
    (hc : '\\' :: letter :: c.rest <:+ cs) :
    Reads (OutOfRange cs) (EndsIn cs) (hexEscape width c) := by
  have hin : c.IsIn cs := (List.suffix_append ['\\', letter] c.rest).trans hc
  unfold hexEscape
  dsimp only
  split
  · trivial
  · next n hn =>
      split at hn
      · next hlength =>
          have hinfix : '\\' :: letter :: c.rest.take width <:+: cs :=
            ((List.prefix_append_right_inj ['\\', letter]).2
              (List.take_prefix width _)).isInfix.trans hc.isInfix
          rw [← hlength] at hwidth
          split
          · next hlarge => exact .tooLarge hinfix hwidth hn hlarge
          split
          · next hlarge hbeyond => exact .notACharacter hinfix hwidth hn hbeyond (by omega)
          split
          · split
            · exact (hin.advance _).advance _
            · exact hin.advance _
          · exact hin.advance _
      · cases hn

theorem reads_quotedBreaks (fuel : Nat) (breaks : List Char) (h : c.IsIn cs) :
    Reads (OutOfRange cs) (EndsIn cs) (quotedBreaks fuel breaks c) := by
  induction fuel generalizing breaks c with
  | zero => trivial
  | succ fuel ih =>
      unfold quotedBreaks
      split
      · trivial
      · dsimp only
        split
        · next b c' hbreak => exact ih _ ((h.skipWhile _).of_lineBreak hbreak)
        · next c' hbreak => exact (h.skipWhile _).of_lineBreak hbreak

theorem reads_quotedFrom (limit : Nat) (double : Bool) (fuel : Nat) (read : List Char)
    (h : c.IsIn cs) : Reads (OutOfRange cs) (EndsIn cs) (quotedFrom limit double fuel read c) := by
  induction fuel generalizing read c with
  | zero => trivial
  | succ fuel ih =>
      unfold quotedFrom
      dsimp only
      split
      · split
        · next b c' hbreak =>
            have hbreaks := reads_quotedBreaks limit [] ((h.takeWhile _).of_lineBreak hbreak)
            split
            · next stop hstop => exact hbreaks.of_error hstop
            · next more c'' hok => exact ih _ (hbreaks.of_ok hok)
        · next c' hbreak =>
            split
            · trivial
            · exact ih _ ((h.takeWhile _).of_lineBreak hbreak)
      split
      · trivial
      split
      · split
        · exact h.next
        split
        · next hslash =>
          split
          · exact ih _ h.next.next
          · next width _ hwidth =>
              have hletter : c.next.peek ≠ endMark := by
                intro hend
                rw [hend] at hwidth
                cases hwidth
              have hc : '\\' :: c.next.peek :: c.next.next.rest <:+ cs := by
                rw [← Cursor.rest_eq_of_peek rfl hletter,
                  ← Cursor.rest_eq_of_peek hslash (show '\\' ≠ endMark by decide)]
                exact h
              have hescape := reads_hexEscape hwidth hc
              split
              · next stop hstop => exact hescape.of_error hstop
              · next y c' hok => exact ih _ (hescape.of_ok hok)
          · split
            · next b c' hbreak =>
                have hbreaks := reads_quotedBreaks limit [] (h.next.of_lineBreak hbreak)
                split
                · next stop hstop => exact hbreaks.of_error hstop
                · next more c'' hok => exact ih _ (hbreaks.of_ok hok)
            · trivial
        · exact ih _ h.next
      split
      · split
        · exact ih _ (h.advance 2)
        · exact h.next
      · exact ih _ h.next

theorem reads_quotedScalar (limit : Nat) (h : c.IsIn cs) :
    Reads (OutOfRange cs) (EndsIn cs) (quotedScalar limit c) := reads_quotedFrom _ _ _ _ h.next

/-! ### Plain texts and blocks -/

theorem isIn_plainBreaks (fuel : Nat) (breaks : List Char) (h : c.IsIn cs) :
    (plainBreaks fuel breaks c).2.IsIn cs := by
  induction fuel generalizing breaks c with
  | zero => exact h
  | succ fuel ih =>
      unfold plainBreaks
      split
      · exact ih _ h.next
      split
      · next b c' hbreak =>
          have h' : c'.IsIn cs := h.of_lineBreak hbreak
          split
          · exact h'
          · exact ih _ h'
      · next c' hbreak => exact h.of_lineBreak hbreak

theorem isIn_plainGap (limit : Nat) (h : c.IsIn cs) : (plainGap limit c).2.2.IsIn cs := by
  unfold plainGap
  dsimp only
  split
  · next c' hbreak => exact (h.takeWhile _).of_lineBreak hbreak
  · next b c' hbreak =>
      have h' : c'.IsIn cs := (h.takeWhile _).of_lineBreak hbreak
      have hbreaks := isIn_plainBreaks limit [] h'
      split
      · exact h'
      split
      · next c'' hplain => rwa [hplain] at hbreaks
      · next more c'' hplain => rwa [hplain] at hbreaks

theorem isIn_plainFrom (limit : Nat) (inFlow : Bool) (indent : Int) (fuel : Nat)
    (read gap : List Char) (key : Bool) (h : c.IsIn cs) :
    (plainFrom limit inFlow indent fuel read gap key c).2.2.IsIn cs := by
  induction fuel generalizing read gap key c with
  | zero => exact h
  | succ fuel ih =>
      unfold plainFrom
      extract_lets run read'
      have hgap := isIn_plainGap limit (h.advance run.length)
      clear_value read'
      generalize plainGap limit (c.advance run.length) = found at hgap ⊢
      obtain ⟨gap', broke, c'⟩ := found
      split
      · exact h
      dsimp only
      split
      · exact hgap
      · exact ih _ _ _ hgap

theorem reads_blockHeader (h : c.IsIn cs) : Reads (OutOfRange cs) (EndsIn cs) (blockHeader c) := by
  have hincrement (x : Char) : Reads (OutOfRange cs) (fun _ => True) (increment? x) := by
    unfold increment?
    split
    · trivial
    split <;> trivial
  unfold blockHeader
  refine .bind (P := EndsIn cs) ?_ fun ⟨header, c'⟩ hc' => ?_
  · split
    · next chomping hsign =>
        refine (hincrement _).bind fun n _ => ?_
        cases n with
        | none => exact h.next
        | some n => exact h.next.next
    · refine (hincrement _).bind fun n _ => ?_
      cases n with
      | none => exact h
      | some n =>
          dsimp only
          split
          · exact h.next.next
          · exact h.next
  · dsimp only
    split
    · exact hc'
    · trivial

theorem isIn_blankLines (fuel : Nat) (breaks : List Char) (widest : Nat) (h : c.IsIn cs) :
    (blankLines fuel breaks widest c).2.2.IsIn cs := by
  induction fuel generalizing breaks widest c with
  | zero => exact h
  | succ fuel ih =>
      unfold blankLines
      split
      · exact ih _ _ h.next
      split
      · next b c' hbreak => exact ih _ _ (h.of_lineBreak hbreak)
      · next c' hbreak => exact h.of_lineBreak hbreak

theorem isIn_indentedBreaks (indent fuel : Nat) (breaks : List Char) (h : c.IsIn cs) :
    (indentedBreaks indent fuel breaks c).2.IsIn cs := by
  induction fuel generalizing breaks c with
  | zero => exact h
  | succ fuel ih =>
      have hindent : (indentTo indent c).IsIn cs := h.advance _
      unfold indentedBreaks
      dsimp only
      split
      · next b c' hbreak => exact ih _ (hindent.of_lineBreak hbreak)
      · next c' hbreak => exact hindent.of_lineBreak hbreak

theorem isIn_blockLines (limit indent : Nat) (folded : Bool) (fuel : Nat) (read breaks : List Char)
    (h : c.IsIn cs) : (blockLines limit indent folded fuel read breaks c).2.2.2.IsIn cs := by
  induction fuel generalizing read breaks c with
  | zero => exact h
  | succ fuel ih =>
      have hbreaks := isIn_indentedBreaks indent limit [] (h.takeWhile (!isBreak ·)).lineBreak
      unfold blockLines
      dsimp only
      split
      · exact ih _ _ hbreaks
      · exact hbreaks

theorem reads_blockScalar (limit : Nat) (parent : Int) (folded : Bool) (h : c.IsIn cs) :
    Reads (OutOfRange cs) (EndsIn cs) (blockScalar limit parent folded c) := by
  unfold blockScalar
  refine (reads_blockHeader h).bind fun ⟨header, c₁⟩ h₁ => ?_
  refine (reads_endLine h₁).bind fun c₂ h₂ => ?_
  have hlines (indent : Nat) (breaks : List Char) {c' : Cursor} (h' : c'.IsIn cs) :
      (if c'.column = indent && c'.peek ≠ endMark then
        blockLines limit indent folded limit [] breaks c'
      else ([], none, breaks, c')).2.2.2.IsIn cs := by
    split
    · exact isIn_blockLines _ _ _ _ _ _ h'
    · exact h'
  dsimp only
  cases header.increment with
  | none => exact hlines _ _ (isIn_blankLines _ _ _ h₂)
  | some n => exact hlines _ _ (isIn_indentedBreaks _ _ _ h₂)

/-! ### Anchors, tags and directives -/

theorem reads_anchorName (h : c.IsIn cs) : Reads (OutOfRange cs) (EndsIn cs) (anchorName c) := by
  unfold anchorName
  dsimp only
  split
  · trivial
  · exact h.next.takeWhile _

theorem reads_percentBytes (fuel : Nat) (bytes : List UInt8) (h : c.IsIn cs) :
    Reads (OutOfRange cs) (EndsIn cs) (percentBytes fuel bytes c) := by
  induction fuel generalizing bytes c with
  | zero => trivial
  | succ fuel ih =>
      unfold percentBytes
      split
      · split
        · exact ih _ (h.advance 3)
        · trivial
      · exact h

theorem reads_tagChars (limit fuel : Nat) (read : List Char) (h : c.IsIn cs) :
    Reads (OutOfRange cs) (EndsIn cs) (tagChars limit fuel read c) := by
  induction fuel generalizing read c with
  | zero => trivial
  | succ fuel ih =>
      have h' := h.takeWhile isTagChar
      have hbytes := reads_percentBytes limit [] h'
      unfold tagChars
      dsimp only
      split
      · split
        · next stop hstop => exact hbytes.of_error hstop
        · next bytes c' hok =>
            split
            · trivial
            · exact ih _ (hbytes.of_ok hok)
      · exact h'

theorem reads_tagText (limit : Nat) (h : c.IsIn cs) :
    Reads (OutOfRange cs) (EndsIn cs) (tagText limit c) := by
  unfold tagText
  split
  · exact reads_tagChars _ _ _ h
  · trivial

theorem reads_tagHandle (h : c.IsIn cs) : Reads (OutOfRange cs) (EndsIn cs) (tagHandle c) := by
  unfold tagHandle
  dsimp only
  split
  · trivial
  split
  · exact h.next
  split
  · exact (h.next.takeWhile _).next
  · trivial

theorem reads_writtenTag (limit : Nat) (h : c.IsIn cs) :
    Reads (OutOfRange cs) (EndsIn cs) (writtenTag limit c) := by
  unfold writtenTag
  refine .bind (P := EndsIn cs) ?_ fun ⟨tag, c'⟩ hc' => ?_
  · split
    · refine (reads_tagText limit (h.advance 2)).bind fun ⟨suffix, c'⟩ hc' => ?_
      dsimp only
      split
      · exact hc'.next
      · trivial
    split
    · exact h.next
    · refine .bind (P := EndsIn cs) ?_ fun ⟨handle, c'⟩ hc' => ?_
      · split
        · exact reads_tagHandle h
        · exact h.next
      · exact (reads_tagText limit hc').bind fun ⟨suffix, c''⟩ hc'' => hc''
  · dsimp only
    split
    · exact hc'
    · trivial

theorem isSome_decimalValue? {d : Char} (h : '0' ≤ d ∧ d ≤ '9') :
    (Text.decimalValue? d).isSome := by
  have hlow : 0x30 ≤ d.toNat := h.1
  have hhigh : d.toNat ≤ 0x39 := h.2
  have hzero : Text.zeros.find? (fun z => z ≤ d.toNat && d.toNat < z + 10) = some 0x30 := by
    rw [Text.zeros, List.find?_cons_of_pos]
    simp only [Bool.and_eq_true, decide_eq_true_eq]
    omega
  rw [Text.decimalValue?, hzero]
  rfl

/-- A row of ASCII digits is a number unless there are too many of them. -/
theorem length_of_decimal?_eq_none {digits : List Char} (h : ∀ d ∈ digits, '0' ≤ d ∧ d ≤ '9')
    (hne : digits ≠ []) (hnone : Text.decimal? digits = none) :
    Text.digitLimit < digits.length := by
  have hvalues : (digits.mapM Text.decimalValue?).isSome := by
    clear hne hnone
    induction digits with
    | nil => rfl
    | cons d digits ih =>
        obtain ⟨n, hn⟩ := Option.isSome_iff_exists.1 (isSome_decimalValue? (h d List.mem_cons_self))
        obtain ⟨ns, hns⟩ := Option.isSome_iff_exists.1
          (ih fun d' hd' => h d' (List.mem_cons_of_mem d hd'))
        rw [List.mapM_cons, hn, hns]
        rfl
  unfold Text.decimal? at hnone
  split at hnone
  · next hbad => simpa [hne] using hbad
  · rw [Option.map_eq_none_iff] at hnone
    rw [hnone] at hvalues
    cases hvalues

/-- The digits of a version are refused only if there are too many. -/
theorem reads_versionNumber (h : c.IsIn cs) :
    Reads (OutOfRange cs) (EndsIn cs) (versionNumber c) := by
  unfold versionNumber
  dsimp only [Cursor.takeWhile]
  split
  · trivial
  next hne =>
    split
    · exact h.advance _
    · next hnone =>
        have hdigits : ∀ d ∈ c.rest.takeWhile fun x => '0' ≤ x && x ≤ '9', '0' ≤ d ∧ d ≤ '9' :=
          fun d hd => by simpa using List.all_eq_true.1 List.all_takeWhile d hd
        have hinfix := (List.takeWhile_prefix fun x => '0' ≤ x && x ≤ '9').isInfix.trans h.isInfix
        exact .notANumber hinfix hdigits
          (length_of_decimal?_eq_none hdigits (by simpa using hne) hnone)

theorem reads_directive (limit : Nat) (h : c.IsIn cs) :
    Reads (OutOfRange cs) (EndsIn cs) (directive limit c) := by
  unfold directive
  generalize hname : c.next.takeWhile isNameChar = name
  have hc : name.2.IsIn cs := hname ▸ h.next.takeWhile isNameChar
  obtain ⟨name, c'⟩ := name
  dsimp only
  split
  · exact True.intro
  refine .bind (P := EndsIn cs) ?_ fun ⟨d, c''⟩ hc'' => ?_
  · split
    · refine (reads_versionNumber hc.skipSpaces).bind fun ⟨major, c₁⟩ h₁ => ?_
      dsimp only
      split
      · exact True.intro
      refine (reads_versionNumber h₁.next).bind fun ⟨minor, c₂⟩ h₂ => ?_
      dsimp only
      split
      · exact h₂
      · exact True.intro
    split
    · refine (reads_tagHandle hc.skipSpaces).bind fun ⟨handle, c₁⟩ h₁ => ?_
      dsimp only
      split
      · exact True.intro
      refine (reads_tagText limit h₁.skipSpaces).bind fun ⟨start, c₂⟩ h₂ => ?_
      dsimp only
      split
      · exact h₂
      · exact True.intro
    · exact hc.skipWhile _
  · exact (reads_endLine hc'').bind fun c₃ h₃ => h₃

end Scanners

/-! ### Tokens -/

/-- What the reader of tokens holds is in the text, and nothing of it is refused. -/
structure Lexer.IsIn (l : Lexer) (cs : List Char) : Prop where
  cursor : l.cursor.IsIn cs
  read : ∀ r, .refused r ∉ l.read

namespace Lexer.IsIn

variable {cs : List Char} {l : Lexer} {t : Token} {R : Refusal → Prop}

theorem push (h : l.IsIn cs) (ht : ∀ r, t ≠ .refused r) : (l.push t).IsIn cs :=
  ⟨h.cursor, fun r hr => (List.mem_cons.1 hr).elim (fun heq => ht r heq.symm) (h.read r)⟩

theorem insertAt (h : l.IsIn cs) (number : Nat) (ht : ∀ r, t ≠ .refused r) :
    (l.insertAt number t).IsIn cs := by
  refine ⟨h.cursor, fun r hr => ?_⟩
  rcases List.mem_append.1 hr with hr | hr
  · exact h.read r (List.mem_of_mem_take hr)
  · exact (List.mem_cons.1 hr).elim (fun heq => ht r heq.symm)
      fun hr => h.read r (List.mem_of_mem_drop hr)

theorem unwind (h : l.IsIn cs) (column : Int) : (l.unwind column).IsIn cs := by
  have hgo (outer : List Int) {l : Lexer} (h : l.IsIn cs) :
      (Lexer.unwind.go column outer l).IsIn cs := by
    induction outer generalizing l with
    | nil => exact h
    | cons indent outer ih =>
        unfold Lexer.unwind.go
        split
        · have h' : (l.push .blockEnd).IsIn cs := h.push nofun
          exact ih ⟨h'.cursor, h'.read⟩
        · exact h
  unfold Lexer.unwind
  split
  · exact h
  · exact hgo _ h

theorem toToken (h : l.IsIn cs) (fuel : Nat) : (l.toToken fuel).IsIn cs := by
  induction fuel generalizing l with
  | zero => exact h
  | succ fuel ih =>
      unfold Lexer.toToken
      dsimp only
      split
      · next b c hbreak => exact ih ⟨h.cursor.skipSpaces.skipComment.of_lineBreak hbreak, h.read⟩
      · next c hbreak => exact ⟨h.cursor.skipSpaces.skipComment.of_lineBreak hbreak, h.read⟩

theorem dropStale (h : l.IsIn cs) : Reads R (IsIn · cs) l.dropStale := by
  unfold Lexer.dropStale
  split
  · trivial
  · exact ⟨h.cursor, h.read⟩

theorem dropKey (h : l.IsIn cs) : Reads R (IsIn · cs) l.dropKey := by
  unfold Lexer.dropKey
  split
  · trivial
  · exact ⟨h.cursor, h.read⟩

theorem noteKey (h : l.IsIn cs) : Reads (OutOfRange cs) (IsIn · cs) l.noteKey := by
  unfold Lexer.noteKey
  split
  · exact h.dropKey.bind fun _ h' => ⟨h'.cursor, h'.read⟩
  · exact h

theorem atMargin (h : l.IsIn cs) : Reads (OutOfRange cs) (IsIn · cs) l.atMargin :=
  (h.unwind (-1)).dropKey.bind fun _ h' => ⟨h'.cursor, h'.read⟩

theorem indicator (h : l.IsIn cs) (width : Nat) (ht : ∀ r, t ≠ .refused r) :
    (l.indicator width t).IsIn cs :=
  push (l := { l with cursor := l.cursor.advance width }) ⟨h.cursor.advance width, h.read⟩ ht

theorem openBlock (h : l.IsIn cs) (column : Nat) : (l.openBlock column).1.IsIn cs := by
  unfold Lexer.openBlock
  split
  · exact ⟨h.cursor, h.read⟩
  · exact h

theorem openHere (h : l.IsIn cs) (ht : ∀ r, t ≠ .refused r) : (l.openHere t).IsIn cs := by
  have hopen := h.openBlock l.cursor.column
  unfold Lexer.openHere
  split
  · next l' heq =>
      rw [heq] at hopen
      exact push hopen ht
  · next l' heq =>
      rw [heq] at hopen
      exact hopen

theorem flowStart (h : l.IsIn cs) (ht : ∀ r, t ≠ .refused r) :
    Reads (OutOfRange cs) (IsIn · cs) (l.flowStart t) :=
  h.noteKey.bind fun l' h' =>
    indicator (l := { l' with flowLevel := l'.flowLevel + 1, keyAllowed := true })
      ⟨h'.cursor, h'.read⟩ 1 ht

theorem flowEnd (h : l.IsIn cs) (ht : ∀ r, t ≠ .refused r) :
    Reads (OutOfRange cs) (IsIn · cs) (l.flowEnd t) := by
  refine h.dropKey.bind fun l' h' => ?_
  split
  · exact True.intro
  · exact indicator (l := { l' with flowLevel := l'.flowLevel - 1, keyAllowed := false })
      ⟨h'.cursor, h'.read⟩ 1 ht

theorem flowEntry (h : l.IsIn cs) : Reads (OutOfRange cs) (IsIn · cs) l.flowEntry :=
  (dropKey (l := { l with keyAllowed := true }) ⟨h.cursor, h.read⟩).bind
    fun _ h' => h'.indicator 1 nofun

/-- A token by itself, before which a block may begin. -/
theorem marked (h : l.IsIn cs) (opening : Token) (hopening : ∀ r, opening ≠ .refused r)
    (ht : ∀ r, t ≠ .refused r) (keyAllowed : Lexer → Bool) :
    Reads (OutOfRange cs) (IsIn · cs) (do
      let l := if l.inFlow then l else l.openHere opening
      let l ← { l with keyAllowed := keyAllowed l }.dropKey
      return l.indicator 1 t) := by
  have hopened : (if l.inFlow then l else l.openHere opening).IsIn cs := by
    split
    · exact h
    · exact h.openHere hopening
  refine Reads.bind (P := (IsIn · cs)) ?_ fun l' h' => ?_
  · exact dropKey ⟨hopened.cursor, hopened.read⟩
  · exact h'.indicator 1 ht

theorem blockEntry (h : l.IsIn cs) : Reads (OutOfRange cs) (IsIn · cs) l.blockEntry := by
  unfold Lexer.blockEntry
  dsimp only
  split
  · exact True.intro
  · exact h.marked .blockSequenceStart nofun (t := .entry) nofun fun _ => true

theorem explicitKey (h : l.IsIn cs) : Reads (OutOfRange cs) (IsIn · cs) l.explicitKey := by
  unfold Lexer.explicitKey
  dsimp only
  split
  · exact True.intro
  · exact h.marked .blockMappingStart nofun (t := .key) nofun fun l => !l.inFlow

theorem valueMark (h : l.IsIn cs) : Reads (OutOfRange cs) (IsIn · cs) l.valueMark := by
  unfold Lexer.valueMark
  split
  · next k _ =>
      let noted := { l with possibleKeys := l.possibleKeys.filter (·.level != l.flowLevel) }
      have hkey : (noted.insertAt k.number .key).IsIn cs :=
        insertAt (l := noted) ⟨h.cursor, h.read⟩ k.number nofun
      have hopen := hkey.openBlock k.column
      have hmark {l' : Lexer} (h' : l'.IsIn cs) :
          ({ l' with keyAllowed := false }.indicator 1 .value).IsIn cs :=
        indicator (l := { l' with keyAllowed := false }) ⟨h'.cursor, h'.read⟩ 1 nofun
      refine hmark ?_
      split
      · exact hkey
      split
      · next l' heq =>
          rw [heq] at hopen
          exact insertAt hopen k.number nofun
      · next l' heq =>
          rw [heq] at hopen
          exact hopen
  · dsimp only
    split
    · exact True.intro
    · exact h.marked .blockMappingStart nofun (t := .value) nofun fun l => !l.inFlow

theorem keyed {α : Type} {scan : Cursor → Except Stop (α × Cursor)} {f : α → Token}
    (h : l.IsIn cs) (hscan : ∀ c : Cursor, c.IsIn cs → Reads (OutOfRange cs) (EndsIn cs) (scan c))
    (hf : ∀ x r, f x ≠ .refused r) : Reads (OutOfRange cs) (IsIn · cs) (l.keyed scan f) := by
  refine h.noteKey.bind fun l' h' => ?_
  refine (hscan _ h'.cursor).bind fun ⟨x, c⟩ hc => ?_
  exact push (l := { l' with cursor := c, keyAllowed := false }) ⟨hc, h'.read⟩ (hf x)

theorem block (h : l.IsIn cs) (limit : Nat) (folded : Bool) :
    Reads (OutOfRange cs) (IsIn · cs) (l.block limit folded) := by
  refine (dropKey (l := { l with keyAllowed := true }) ⟨h.cursor, h.read⟩).bind fun l' h' => ?_
  refine (reads_blockScalar limit _ folded h'.cursor.next).bind fun ⟨s, c⟩ hc => ?_
  exact push (l := { l' with cursor := c }) ⟨hc, h'.read⟩ nofun

theorem plain (h : l.IsIn cs) (limit : Nat) :
    Reads (OutOfRange cs) (IsIn · cs) (l.plain limit) := by
  refine h.noteKey.bind fun l' h' => ?_
  have hend := isIn_plainFrom limit l'.inFlow (l'.indent + 1) limit [] [] false h'.cursor
  exact push (t := .scalar .plain _) ⟨hend, h'.read⟩ nofun

/-- Every way in which a token begins keeps to the text. -/
theorem token (h : l.IsIn cs) (limit : Nat) :
    Reads (OutOfRange cs) (IsIn · cs) (l.token limit) := by
  have hmark {t : Token} (ht : ∀ r, t ≠ .refused r) : Reads (OutOfRange cs) (IsIn · cs) (do
      return (← l.atMargin).indicator 3 t) := h.atMargin.bind fun l' h' => h'.indicator 3 ht
  have hname {f : String → Token} (hf : ∀ x r, f x ≠ .refused r) :
      Reads (OutOfRange cs) (IsIn · cs) (l.keyed anchorName f) :=
    h.keyed (fun c hc => reads_anchorName hc) hf
  have htag : Reads (OutOfRange cs) (IsIn · cs) (l.keyed (writtenTag limit) .tag) :=
    h.keyed (fun c hc => reads_writtenTag limit hc) nofun
  have hquoted :
      Reads (OutOfRange cs) (IsIn · cs) (l.keyed (quotedScalar limit) (.scalar .quoted)) :=
    h.keyed (fun c hc => reads_quotedScalar limit hc) nofun
  unfold Lexer.token
  refine .ite (fun _ => ?_) fun _ => ?_
  · refine h.atMargin.bind fun l' h' => (reads_directive limit h'.cursor).bind fun found hc => ?_
    exact push (l := { l' with cursor := found.2 }) ⟨hc, h'.read⟩ nofun
  refine .ite (fun _ => hmark nofun) fun _ => .ite (fun _ => hmark nofun) fun _ => ?_
  refine .ite (fun _ => h.flowStart nofun) fun _ => .ite (fun _ => h.flowStart nofun) fun _ => ?_
  refine .ite (fun _ => h.flowEnd nofun) fun _ => .ite (fun _ => h.flowEnd nofun) fun _ => ?_
  refine .ite (fun _ => h.flowEntry) fun _ => .ite (fun _ => h.blockEntry) fun _ => ?_
  refine .ite (fun _ => h.explicitKey) fun _ => .ite (fun _ => h.valueMark) fun _ => ?_
  refine .ite (fun _ => hname nofun) fun _ => .ite (fun _ => hname nofun) fun _ => ?_
  refine .ite (fun _ => htag) fun _ => .ite (fun _ => h.block limit false) fun _ => ?_
  refine .ite (fun _ => h.block limit true) fun _ => .ite (fun _ => hquoted) fun _ => ?_
  exact .ite (fun _ => h.plain limit) fun _ => True.intro

theorem settled (h : l.IsIn cs) (r : Refusal) : .refused r ∉ l.settled := fun hr =>
  h.read r (List.mem_reverse.1 (List.mem_of_mem_take hr))

/-- A run refuses nothing, and whatever it marks as refused stands in the text. -/
theorem run (h : l.IsIn cs) (limit fuel : Nat) :
    Reads (fun _ => False) (fun ts => ∀ r, .refused r ∈ ts → OutOfRange cs r)
      (Lexer.run limit fuel l) := by
  induction fuel generalizing l with
  | zero => trivial
  | succ fuel ih =>
      refine (h.toToken limit).dropStale.bind fun l' h' => ?_
      dsimp only
      refine .ite (fun _ => ?_) fun _ => ?_
      · refine ((h'.unwind _).unwind (-1)).dropKey.bind fun l₁ h₁ r hr => ?_
        have hend : (l₁.push .streamEnd).IsIn cs := h₁.push nofun
        exact absurd (List.mem_reverse.1 hr) (hend.read r)
      · have htoken := (h'.unwind l'.cursor.column).token limit
        split
        · next l₁ heq => exact ih (htoken.of_ok heq)
        · next r heq =>
            have hrange : OutOfRange cs r := by rwa [heq] at htoken
            intro r' hr'
            rcases List.mem_append.1 hr' with hr' | hr'
            · exact absurd hr' (h.settled r')
            · exact Token.refused.inj (List.mem_singleton.1 hr') ▸ hrange
        · trivial

end Lexer.IsIn

/-- The reader of tokens refuses nothing, and whatever it marks as refused stands in the text. -/
theorem reads_tokens (cs : List Char) :
    Reads (fun _ => False) (fun ts => ∀ r, .refused r ∈ ts → OutOfRange cs r) (tokens cs) := by
  refine .ite (fun _ => True.intro) fun _ => ?_
  have hstart : (if cs.head? = some '\ufeff' then cs.drop 1 else cs) <:+ cs := by
    split
    · exact List.drop_suffix 1 cs
    · exact List.suffix_refl cs
  have hin : Lexer.IsIn { cursor := { rest := _ } } cs := ⟨hstart, fun _ => List.not_mem_nil⟩
  exact hin.run _ _

end OpenApiClient.Yaml
