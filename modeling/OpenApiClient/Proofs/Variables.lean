import Mathlib.Data.List.Basic
import OpenApiClient.Php.Parameter
import OpenApiClient.Proofs.Cutting

/-!
# Which names have the same variable

The variable of a name is its words run together.  A capital shows where a word begins, unless the
word begins with a digit; so two names have the same variable exactly if they have the same words,
where a word that begins with a digit is taken together with the word before it.  Where case does
not count, as in the names of methods, nothing shows where words begin.
-/

namespace OpenApiClient.Name

open Text

/-- What holds of all ASCII characters holds of a character that is one. -/
theorem of_ascii {P : Char → Prop} (h : ∀ n < 128, P (Char.ofNat n)) {c : Char}
    (hc : c.toNat < 128) : P c := by
  have := h c.toNat hc
  rwa [Char.ofNat_toNat] at this

theorem toNat_le_toNat {a b : Char} (h : a ≤ b) : a.toNat ≤ b.toNat := h

theorem toNat_lt_of_isWordChar {c : Char} (h : isWordChar c = true) : c.toNat < 128 := by
  simp only [isWordChar, isSmall, isDigit, Bool.or_eq_true, Bool.and_eq_true,
    decide_eq_true_eq] at h
  rcases h with ⟨-, h⟩ | ⟨-, h⟩ <;> exact Nat.lt_of_le_of_lt (toNat_le_toNat h) (by decide)

theorem isWordChar_cases {P : Char → Prop}
    (h : ∀ n < 128, isWordChar (Char.ofNat n) = true → P (Char.ofNat n)) {c : Char}
    (hc : isWordChar c = true) : P c :=
  of_ascii (P := fun c => isWordChar c = true → P c) h (toNat_lt_of_isWordChar hc) hc

/-- A word is not empty and has small letters and digits only. -/
structure IsWord (w : List Char) : Prop where
  ne_nil : w ≠ []
  chars : ∀ c ∈ w, isWordChar c = true

theorem IsWord.underscore_notMem {w : List Char} (h : IsWord w) : '_' ∉ w :=
  fun hmem => absurd (h.chars '_' hmem) (by decide)

theorem mem_of_mem_pieces {sep : Char} {cs p : List Char} (h : p ∈ pieces sep cs) : p ⊆ cs := by
  induction cs generalizing p with
  | nil =>
      rw [List.mem_singleton.1 h]
      exact List.nil_subset []
  | cons c cs ih =>
      rw [pieces] at h
      split at h
      · rcases List.mem_cons.1 h with rfl | h
        · exact List.nil_subset _
        · exact List.Subset.trans (ih h) (List.subset_cons_self c cs)
      · cases hcs : pieces sep cs with
        | nil => exact absurd hcs (pieces_ne_nil sep cs)
        | cons q qs =>
            rw [hcs] at h ih
            rcases List.mem_cons.1 h with rfl | h
            · exact List.cons_subset_cons c (ih List.mem_cons_self)
            · exact List.Subset.trans (ih (List.mem_cons_of_mem q h)) (List.subset_cons_self c cs)

theorem isWordChar_of_mem_keyChars {c d : Char} (h : d ∈ keyChars c) (hd : d ≠ '_') :
    isWordChar d = true := by
  unfold keyChars at h
  split at h
  · rcases List.mem_cons.1 h with rfl | h
    · decide
    · exact absurd (List.mem_singleton.1 h) hd
  · rw [List.mem_singleton.1 h] at hd ⊢
    unfold keyChar at hd ⊢
    split at hd
    · next hcapital =>
        have hlt : c.toNat < 128 := by
          simp only [isCapital, Bool.and_eq_true, decide_eq_true_eq] at hcapital
          exact Nat.lt_of_le_of_lt (toNat_le_toNat hcapital.2) (by decide)
        rw [if_pos hcapital]
        exact of_ascii
          (P := fun c => isCapital c = true → isWordChar (Char.ofNat (c.toNat + 32)) = true)
          (by decide) hlt hcapital
    · next hcapital =>
        rw [if_neg hcapital]
        split at hd
        · next hword => rwa [if_pos hword]
        · next hword =>
            rw [if_neg hword]
            split at hd
            · next hk =>
                rw [if_pos hk]
                decide
            · exact absurd rfl hd

theorem isWord_of_mem_words {name w : List Char} (h : w ∈ words name) : IsWord w := by
  obtain ⟨hpiece, hfilled⟩ := List.mem_filter.1 h
  refine ⟨by simpa using hfilled, fun d hd => ?_⟩
  obtain ⟨c, -, hdc⟩ := List.mem_flatMap.1 (mem_of_mem_pieces hpiece hd)
  refine isWordChar_of_mem_keyChars hdc ?_
  rintro rfl
  exact notMem_of_mem_pieces hpiece hd

/-- Words, where a word that begins with a digit is taken together with the word before it. -/
def tighten : List (List Char) → List (List Char)
  | [] => []
  | w :: rest =>
    match tighten rest with
    | [] => [w]
    | v :: vs => if v.head?.any isDigit then (w ++ v) :: vs else w :: v :: vs

/-- The parts of the variable of a name; where a name has no words, there is one. -/
def parts (name : String) : List (List Char) :=
  match tighten (words name.toList) with
  | [] => [['p', 'a', 'r', 'a', 'm']]
  | ws => ws

/-- Parts of a variable: words, of which all but the first begin with a letter. -/
structure AreParts (ws : List (List Char)) : Prop where
  words : ∀ w ∈ ws, IsWord w
  letters : ∀ w ∈ ws.tail, w.head?.any isDigit = false

theorem AreParts.tail {w : List Char} {ws : List (List Char)} (h : AreParts (w :: ws)) :
    AreParts ws where
  words v hv := h.words v (List.mem_cons_of_mem w hv)
  letters v hv := h.letters v (List.mem_of_mem_tail hv)

section Tighten

variable {ws : List (List Char)}

theorem areParts_tighten (h : ∀ w ∈ ws, IsWord w) : AreParts (tighten ws) := by
  induction ws with
  | nil => exact ⟨nofun, nofun⟩
  | cons w rest ih =>
      have hrest := ih fun v hv => h v (List.mem_cons_of_mem w hv)
      have hw := h w List.mem_cons_self
      rw [tighten]
      cases ht : tighten rest with
      | nil => exact ⟨by simpa using hw, by simp⟩
      | cons v vs =>
          rw [ht] at hrest
          have hv := hrest.words v List.mem_cons_self
          dsimp only
          split
          · refine ⟨fun u hu => ?_, hrest.letters⟩
            rcases List.mem_cons.1 hu with rfl | hu
            · refine ⟨by simp [hw.ne_nil], fun c hc => ?_⟩
              exact (List.mem_append.1 hc).elim (hw.chars c) (hv.chars c)
            · exact hrest.words u (List.mem_cons_of_mem v hu)
          · next hletter =>
              refine ⟨fun u hu => ?_, fun u hu => ?_⟩
              · rcases List.mem_cons.1 hu with rfl | hu
                · exact hw
                · exact hrest.words u hu
              · rcases List.mem_cons.1 hu with rfl | hu
                · simpa using hletter
                · exact hrest.letters u hu

theorem capitalized_append {w : List Char} (h : w ≠ []) (v : List Char) :
    capitalized (w ++ v) = capitalized w ++ v := by
  cases w with
  | nil => exact absurd rfl h
  | cons c w => rfl

theorem capitalized_of_isDigit {w : List Char} (h : w.head?.any isDigit = true) :
    capitalized w = w := by
  cases w with
  | nil => rfl
  | cons c w =>
      have hdigit : isDigit c = true := by simpa using h
      have hsmall : isSmall c = false :=
        isWordChar_cases (P := fun c => isDigit c = true → isSmall c = false) (by decide)
          (by simp [isWordChar, hdigit]) hdigit
      simp [capitalized, hsmall]

theorem flatMap_capitalized_tighten (h : ∀ w ∈ ws, IsWord w) :
    (tighten ws).flatMap capitalized = ws.flatMap capitalized := by
  induction ws with
  | nil => rfl
  | cons w rest ih =>
      rw [tighten, List.flatMap_cons, ← ih fun v hv => h v (List.mem_cons_of_mem w hv)]
      cases tighten rest with
      | nil => rfl
      | cons v vs =>
          dsimp only
          split
          · next hdigit =>
              rw [List.flatMap_cons, capitalized_append (h w List.mem_cons_self).ne_nil,
                List.flatMap_cons, capitalized_of_isDigit hdigit, List.append_assoc]
          · rw [List.flatMap_cons]

theorem hump_tighten (h : ∀ w ∈ ws, IsWord w) : hump (tighten ws) = hump ws := by
  cases ws with
  | nil => rfl
  | cons w rest =>
      have hrest := flatMap_capitalized_tighten fun v hv => h v (List.mem_cons_of_mem w hv)
      rw [tighten, hump, ← hrest]
      cases tighten rest with
      | nil => rfl
      | cons v vs =>
          dsimp only
          split
          · next hdigit =>
              rw [hump, List.flatMap_cons, capitalized_of_isDigit hdigit, List.append_assoc]
          · rw [hump]

end Tighten

theorem areParts_parts (name : String) : AreParts (parts name) := by
  have hwords : ∀ w ∈ words name.toList, IsWord w := fun w hw => isWord_of_mem_words hw
  have h := areParts_tighten hwords
  unfold parts
  split
  · refine ⟨fun w hw => ?_, nofun⟩
    rw [List.mem_singleton.1 hw]
    exact ⟨by decide, List.all_eq_true.1 (by decide)⟩
  · exact h

theorem parts_ne_nil (name : String) : parts name ≠ [] := by
  unfold parts
  split
  · exact List.cons_ne_nil _ _
  · assumption

theorem flatten_tighten (ws : List (List Char)) : (tighten ws).flatten = ws.flatten := by
  induction ws with
  | nil => rfl
  | cons w rest ih =>
      rw [tighten, List.flatten_cons, ← ih]
      cases tighten rest with
      | nil => rfl
      | cons v vs =>
          dsimp only
          split
          · rw [List.flatten_cons, List.flatten_cons, List.append_assoc]
          · rw [List.flatten_cons]

theorem flatten_parts {name : String} (h : words name.toList ≠ []) :
    (parts name).flatten = (words name.toList).flatten := by
  unfold parts
  split
  · next hnil =>
      have hflatten := flatten_tighten (words name.toList)
      rw [hnil] at hflatten
      obtain ⟨w, hw⟩ := List.exists_mem_of_ne_nil _ h
      exact absurd (List.flatten_eq_nil_iff.1 hflatten.symm w hw) (isWord_of_mem_words hw).ne_nil
  · exact flatten_tighten _

/-- A run of letters and digits as a variable. -/
def decorated (run : List Char) : List Char :=
  let run := if run.head?.any isDigit then '_' :: run else run
  if run = ['t', 'h', 'i', 's'] then run ++ ['_'] else run

theorem variableName_eq (name : String) :
    variableName name = String.ofList (decorated (hump (parts name))) := by
  have hwords : ∀ w ∈ words name.toList, IsWord w := fun w hw => isWord_of_mem_words hw
  have hhump := hump_tighten hwords
  unfold variableName parts
  rw [← hhump]
  cases ht : tighten (words name.toList) with
  | nil => decide
  | cons w rest =>
      have hne : w ≠ [] := ((areParts_tighten hwords).words w (ht ▸ List.mem_cons_self)).ne_nil
      cases w with
      | nil => exact absurd rfl hne
      | cons c w => rfl

/-- Small letters and their capitals. -/
theorem toLower_raised {c : Char} (h : isSmall c = true) :
    (Char.ofNat (c.toNat - 32)).toLower = c :=
  isWordChar_cases (P := fun c => isSmall c = true → (Char.ofNat (c.toNat - 32)).toLower = c)
    (by decide) (by simp [isWordChar, h]) h

theorem toList_toLower (s : String) : s.toLower.toList = s.toList.map Char.toLower :=
  String.toList_map

theorem isCapital_raised {c : Char} (h : isSmall c = true) :
    isCapital (Char.ofNat (c.toNat - 32)) = true :=
  isWordChar_cases (P := fun c => isSmall c = true → isCapital (Char.ofNat (c.toNat - 32)) = true)
    (by decide) (by simp [isWordChar, h]) h

theorem isCapital_of_isWordChar {c : Char} (h : isWordChar c = true) : isCapital c = false :=
  isWordChar_cases (P := fun c => isCapital c = false) (by decide) h

/-- A part that begins with a letter, with the capital that stands for the letter. -/
theorem exists_capitalized_eq {w : List Char} (h : IsWord w)
    (hletter : w.head?.any isDigit = false) :
    ∃ c cs, w = c :: cs ∧ isSmall c = true ∧ capitalized w = Char.ofNat (c.toNat - 32) :: cs := by
  cases w with
  | nil => exact absurd rfl h.ne_nil
  | cons c cs =>
      have hdigit : isDigit c = false := by simpa using hletter
      have hsmall : isSmall c = true := by
        simpa [isWordChar, hdigit] using h.chars c List.mem_cons_self
      exact ⟨c, cs, rfl, hsmall, by simp [capitalized, hsmall]⟩

/-- The first capital of a run shows where its first part ends. -/
theorem eq_of_append_capital {w w' rest rest' : List Char} {c c' : Char}
    (hw : ∀ d ∈ w, isWordChar d = true) (hw' : ∀ d ∈ w', isWordChar d = true)
    (hc : isCapital c = true) (hc' : isCapital c' = true)
    (h : w ++ c :: rest = w' ++ c' :: rest') : w = w' ∧ c = c' ∧ rest = rest' := by
  induction w generalizing w' with
  | nil =>
      cases w' with
      | nil => exact ⟨rfl, List.cons.inj h⟩
      | cons d w' =>
          obtain ⟨rfl, -⟩ := List.cons.inj h
          rw [isCapital_of_isWordChar (hw' c List.mem_cons_self)] at hc
          cases hc
  | cons d w ih =>
      cases w' with
      | nil =>
          obtain ⟨rfl, -⟩ := List.cons.inj h
          rw [isCapital_of_isWordChar (hw d List.mem_cons_self)] at hc'
          cases hc'
      | cons d' w' =>
          obtain ⟨rfl, htail⟩ := List.cons.inj h
          obtain ⟨rfl, hrest⟩ := ih (fun e he => hw e (List.mem_cons_of_mem d he))
            (fun e he => hw' e (List.mem_cons_of_mem d he)) htail
          exact ⟨rfl, hrest⟩

theorem eq_of_append_flatMap_capitalized {ws ws' : List (List Char)} {w w' : List Char}
    (hws : AreParts (w :: ws)) (hws' : AreParts (w' :: ws'))
    (h : w ++ ws.flatMap capitalized = w' ++ ws'.flatMap capitalized) : w = w' ∧ ws = ws' := by
  have hchars {w : List Char} {ws : List (List Char)} (hws : AreParts (w :: ws)) :
      ∀ c ∈ w, isWordChar c = true := (hws.words w List.mem_cons_self).chars
  induction ws generalizing w w' ws' with
  | nil =>
      cases ws' with
      | nil => simpa using h
      | cons v' vs' =>
          obtain ⟨c', cs', rfl, hc', heq'⟩ := exists_capitalized_eq
            (hws'.words v' (by simp)) (hws'.letters v' (by simp))
          rw [List.flatMap_cons, heq', List.flatMap_nil, List.append_nil] at h
          have hmem := hchars hws (Char.ofNat (c'.toNat - 32)) (by simp [h])
          simpa [isCapital_raised hc'] using isCapital_of_isWordChar hmem
  | cons v vs ih =>
      obtain ⟨c, cs, rfl, hc, heq⟩ := exists_capitalized_eq
        (hws.words v (by simp)) (hws.letters v (by simp))
      cases ws' with
      | nil =>
          rw [List.flatMap_cons, heq, List.flatMap_nil, List.append_nil] at h
          have hmem := hchars hws' (Char.ofNat (c.toNat - 32)) (by simp [← h])
          simpa [isCapital_raised hc] using isCapital_of_isWordChar hmem
      | cons v' vs' =>
          obtain ⟨c', cs', rfl, hc', heq'⟩ := exists_capitalized_eq
            (hws'.words v' (by simp)) (hws'.letters v' (by simp))
          rw [List.flatMap_cons, List.flatMap_cons, heq, heq', List.cons_append,
            List.cons_append] at h
          obtain ⟨rfl, hraised, hrest⟩ := eq_of_append_capital (hchars hws) (hchars hws')
            (isCapital_raised hc) (isCapital_raised hc') h
          obtain rfl : c = c' := by rw [← toLower_raised hc, hraised, toLower_raised hc']
          obtain ⟨hcs, rfl⟩ := ih hws.tail hws'.tail (congrArg (c :: ·) hrest)
          exact ⟨rfl, congrArg (· :: vs) hcs⟩

/-- Parts can be read off the run that they make. -/
theorem eq_of_hump_eq {ws ws' : List (List Char)} (hws : AreParts ws) (hws' : AreParts ws')
    (hne : ws ≠ []) (hne' : ws' ≠ []) (h : hump ws = hump ws') : ws = ws' := by
  cases ws with
  | nil => exact absurd rfl hne
  | cons w ws =>
      cases ws' with
      | nil => exact absurd rfl hne'
      | cons w' ws' =>
          obtain ⟨rfl, rfl⟩ := eq_of_append_flatMap_capitalized hws hws' h
          rfl

theorem map_toLower_of_isWordChar {w : List Char} (h : ∀ c ∈ w, isWordChar c = true) :
    w.map Char.toLower = w := by
  refine (List.map_congr_left fun c hc => ?_).trans (List.map_id w)
  exact isWordChar_cases (P := fun c => c.toLower = id c) (by decide) (h c hc)

/-- The run of some parts has letters and digits only, and begins with a digit if they do. -/
theorem map_toLower_hump {ws : List (List Char)} (h : AreParts ws) :
    (hump ws).map Char.toLower = ws.flatten := by
  have htail {ws : List (List Char)} (hws : ∀ w ∈ ws, IsWord w ∧ w.head?.any isDigit = false) :
      (ws.flatMap capitalized).map Char.toLower = ws.flatten := by
    rw [List.map_flatMap, ← List.flatMap_id]
    refine List.flatMap_congr fun w hw => ?_
    obtain ⟨c, cs, rfl, hc, heq⟩ := exists_capitalized_eq (hws w hw).1 (hws w hw).2
    have hcs :=
      map_toLower_of_isWordChar fun d hd => (hws _ hw).1.chars d (List.mem_cons_of_mem c hd)
    rw [heq, List.map_cons, toLower_raised hc, hcs]
    rfl
  cases ws with
  | nil => rfl
  | cons w ws =>
      rw [hump, List.map_append, map_toLower_of_isWordChar (h.words w List.mem_cons_self).chars,
        htail fun v hv => ⟨h.words v (List.mem_cons_of_mem w hv), h.letters v hv⟩,
          List.flatten_cons]

theorem head?_hump {ws : List (List Char)} (h : AreParts ws) :
    (hump ws).head? = ws.flatten.head? := by
  cases ws with
  | nil => rfl
  | cons w ws =>
      cases w with
      | nil => exact absurd rfl (h.words [] List.mem_cons_self).ne_nil
      | cons c w => rfl

theorem hump_ne_nil {ws : List (List Char)} (h : AreParts ws) (hne : ws ≠ []) : hump ws ≠ [] := by
  cases ws with
  | nil => exact absurd rfl hne
  | cons w ws => exact List.append_ne_nil_of_left_ne_nil (h.words w List.mem_cons_self).ne_nil _

theorem underscore_notMem_flatten {ws : List (List Char)} (h : AreParts ws) : '_' ∉ ws.flatten := by
  intro hmem
  obtain ⟨w, hw, hc⟩ := List.mem_flatten.1 hmem
  exact (h.words w hw).underscore_notMem hc

theorem underscore_notMem_hump {ws : List (List Char)} (h : AreParts ws) : '_' ∉ hump ws := by
  intro hmem
  refine underscore_notMem_flatten h ?_
  rw [← map_toLower_hump h]
  exact List.mem_map.2 ⟨'_', hmem, by decide⟩

/-- The word that is no variable. -/
def ownWord : List Char := ['t', 'h', 'i', 's']

theorem decorated_eq (run : List Char) : decorated run =
    if run = ownWord then run ++ ['_'] else if run.head?.any isDigit then '_' :: run else run := by
  unfold decorated ownWord
  by_cases hdigit : run.head?.any isDigit = true
  · have hne : run ≠ ['t', 'h', 'i', 's'] := by
      rintro rfl
      exact absurd hdigit (by decide)
    simp [hdigit, hne]
  · simp [hdigit]

theorem filter_of_underscore_notMem {cs : List Char} (h : '_' ∉ cs) : cs.filter (· ≠ '_') = cs := by
  refine List.filter_eq_self.2 fun c hc => ?_
  simpa using fun heq : c = '_' => h (heq ▸ hc)

theorem mem_decorated {run : List Char} {c : Char} (h : c ∈ decorated run) : c ∈ run ∨ c = '_' := by
  rw [decorated_eq] at h
  split_ifs at h
  · simpa using h
  · exact (List.mem_cons.1 h).symm
  · exact .inl h

theorem filter_decorated {run : List Char} (h : '_' ∉ run) :
    (decorated run).filter (· ≠ '_') = run := by
  have hrun := filter_of_underscore_notMem h
  rw [decorated_eq]
  split
  · rw [List.filter_append, hrun]
    simp
  · split
    · rw [List.filter_cons_of_neg (by simp), hrun]
    · exact hrun

theorem hump_eq_ownWord_iff {ws : List (List Char)} (h : AreParts ws) (hne : ws ≠ []) :
    hump ws = ownWord ↔ ws = [ownWord] := by
  have hown : AreParts [ownWord] := by
    refine ⟨fun w hw => ?_, nofun⟩
    rw [List.mem_singleton.1 hw]
    exact ⟨by decide, List.all_eq_true.1 (by decide)⟩
  constructor
  · exact fun heq => eq_of_hump_eq h hown hne (List.cons_ne_nil _ _) heq
  · rintro rfl
    rfl

/-- Two names have the same variable exactly if it has the same parts. -/
theorem variableName_eq_iff {a b : String} :
    variableName a = variableName b ↔ parts a = parts b := by
  rw [variableName_eq, variableName_eq]
  refine ⟨fun h => ?_, fun h => by rw [h]⟩
  have ha := areParts_parts a
  have hb := areParts_parts b
  refine eq_of_hump_eq ha hb (parts_ne_nil a) (parts_ne_nil b) ?_
  rw [← filter_decorated (underscore_notMem_hump ha),
    ← filter_decorated (underscore_notMem_hump hb),
    String.ofList_inj.1 h]

/-- The variable of a name without regard to case. -/
theorem toLower_variableName (name : String) : (variableName name).toLower.toList =
    if parts name = [ownWord] then ownWord ++ ['_']
    else if (parts name).flatten.head?.any isDigit then '_' :: (parts name).flatten
    else (parts name).flatten := by
  have h := areParts_parts name
  have hown := hump_eq_ownWord_iff h (parts_ne_nil name)
  rw [variableName_eq, toList_toLower, String.toList_ofList, decorated_eq,
    head?_hump h]
  by_cases hthis : parts name = [ownWord]
  · rw [if_pos (hown.2 hthis), if_pos hthis, hown.2 hthis]
    decide
  · rw [if_neg (mt hown.1 hthis), if_neg hthis]
    split
    · rw [List.map_cons, map_toLower_hump h]
      rfl
    · exact map_toLower_hump h

/-- Without regard to case and underscores, the variable of a name is made of its parts. -/
theorem filter_toLower_variableName (name : String) :
    (variableName name).toLower.toList.filter (· ≠ '_') = (parts name).flatten := by
  have hfilter := filter_of_underscore_notMem (underscore_notMem_flatten (areParts_parts name))
  rw [toLower_variableName]
  split
  · next hown =>
      rw [hown]
      decide
  · split
    · rw [List.filter_cons_of_neg (by simp), hfilter]
    · exact hfilter

/-- Two names have the same variable but for case exactly if it has the same letters and digits,
where the word that is no variable stands apart. -/
theorem toLower_variableName_eq_iff {a b : String} :
    (variableName a).toLower = (variableName b).toLower ↔
      (parts a).flatten = (parts b).flatten ∧ (parts a = [ownWord] ↔ parts b = [ownWord]) := by
  have hlast {name other : String} (hname : parts name = [ownWord])
      (h : (variableName name).toLower.toList = (variableName other).toLower.toList) :
      parts other = [ownWord] := by
    by_contra hother
    rw [toLower_variableName name, if_pos hname, toLower_variableName other, if_neg hother] at h
    have hmem : '_' ∉ (parts other).flatten := underscore_notMem_flatten (areParts_parts other)
    split at h
    · exact absurd (List.cons.inj h).1 (by decide)
    · rw [← h] at hmem
      exact hmem (by simp)
  constructor
  · intro h
    have htoList := congrArg String.toList h
    refine ⟨?_, fun ha => hlast ha htoList, fun hb => hlast hb htoList.symm⟩
    rw [← filter_toLower_variableName a, ← filter_toLower_variableName b, htoList]
  · rintro ⟨hflatten, hown⟩
    rw [← String.toList_inj, toLower_variableName, toLower_variableName, hflatten]
    by_cases ha : parts a = [ownWord]
    · rw [if_pos ha, if_pos (hown.1 ha)]
    · rw [if_neg ha, if_neg (mt hown.2 ha)]

theorem isNameChar_of_isWordChar {c : Char} (h : isWordChar c = true) : isNameChar c = true := by
  rcases Bool.or_eq_true_iff.1 h with h | h <;> simp [isNameChar, h]

/-- The run of some parts has letters and digits only. -/
theorem isNameChar_of_mem_hump {ws : List (List Char)} {c : Char} (h : AreParts ws)
    (hc : c ∈ hump ws) : isNameChar c = true := by
  cases ws with
  | nil => exact absurd hc List.not_mem_nil
  | cons w ws =>
      rcases List.mem_append.1 hc with hc | hc
      · exact isNameChar_of_isWordChar ((h.words w List.mem_cons_self).chars c hc)
      · obtain ⟨v, hv, hc⟩ := List.mem_flatMap.1 hc
        have hword := h.words v (List.mem_cons_of_mem w hv)
        obtain ⟨d, ds, rfl, hd, heq⟩ := exists_capitalized_eq hword (h.letters v hv)
        rcases List.mem_cons.1 (heq ▸ hc) with rfl | hc
        · simp [isNameChar, isCapital_raised hd]
        · exact isNameChar_of_isWordChar (hword.chars c (List.mem_cons_of_mem d hc))

theorem isNameChar_of_mem_variableName {name : String} {c : Char}
    (h : c ∈ (variableName name).toList) : isNameChar c = true := by
  rw [variableName_eq, String.toList_ofList] at h
  rcases mem_decorated h with h | rfl
  · exact isNameChar_of_mem_hump (areParts_parts name) h
  · decide

theorem toNat_lt_of_mem_variableName {name : String} {c : Char}
    (h : c ∈ (variableName name).toList) : c.toNat < 128 := by
  have hc := isNameChar_of_mem_variableName h
  simp only [isNameChar, isSmall, isCapital, isDigit, Bool.or_eq_true, Bool.and_eq_true,
    decide_eq_true_eq] at hc
  rcases hc with ((⟨-, hc⟩ | ⟨-, hc⟩) | ⟨-, hc⟩) | rfl
  · exact Nat.lt_of_le_of_lt (toNat_le_toNat hc) (by decide)
  · exact Nat.lt_of_le_of_lt (toNat_le_toNat hc) (by decide)
  · exact Nat.lt_of_le_of_lt (toNat_le_toNat hc) (by decide)
  · decide

/-- The getter of a property has the letters of its variable. -/
theorem toLower_getterOf (name : String) :
    (Php.getterOf name).toLower = "get" ++ (variableName name).toLower := by
  have hfirst : (capitalizeFirst (variableName name)).toLower = (variableName name).toLower := by
    unfold capitalizeFirst
    cases hcs : (variableName name).toList with
    | nil => rw [String.toList_eq_nil_iff.1 hcs]
    | cons c cs =>
        have hc : c.toNat < 128 :=
          toNat_lt_of_mem_variableName (by rw [hcs]; exact List.mem_cons_self)
        have hlower : c.toUpper.toLower = c.toLower :=
          of_ascii (P := fun c => c.toUpper.toLower = c.toLower) (by decide) hc
        rw [← String.toList_inj]
        simp [toList_toLower, capitalOf, hc, hcs, hlower]
  have happend (s t : String) : (s ++ t).toLower = s.toLower ++ t.toLower := by
    rw [← String.toList_inj]
    simp [toList_toLower]
  rw [Php.getterOf, happend, hfirst, show "get".toLower = "get" by decide +kernel]

end OpenApiClient.Name
