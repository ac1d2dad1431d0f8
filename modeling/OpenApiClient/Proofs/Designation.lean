import Mathlib.Data.List.Basic
import Mathlib.Data.Nat.Digits.Defs
import Mathlib.Order.Bounds.Defs
import OpenApiClient.Pointer
import OpenApiClient.Proofs.Cutting

/-!
# What a pointer designates

A pointer walks from the components of a document along its segments: into a mapping by key, into
a list by the position that a row of decimal digits writes.  `Leads` says where such a walk leads,
without regard to how a pointer is written and to what is reported when it leads nowhere.

Writing segments into a pointer and reading them back are inverse to each other, whatever the
segments are: `segments?_ofSegments`.  Reading undoes the two escapes in one pass; that this is the
same as undoing them one after the other, `~1` first, is `unescape_eq_replace`.  Together with the
walk they say what following a pointer gives, and what is reported where it fails:
`resolve_designates`.
-/

namespace OpenApiClient

namespace Text

/-- The row with a character in place of every pair of two characters, found from the left. -/
def replacePair (a b c : Char) : List Char → List Char
  | x :: y :: rest =>
    if x = a ∧ y = b then c :: replacePair a b c rest else x :: replacePair a b c (y :: rest)
  | cs => cs

/-- No pair starts with another character. -/
theorem replacePair_cons_of_ne {a b c x : Char} (h : x ≠ a) (rest : List Char) :
    replacePair a b c (x :: rest) = x :: replacePair a b c rest := by
  cases rest with
  | nil => rfl
  | cons y rest => rw [replacePair, if_neg fun hxy => h hxy.1]

/-- A replaced row starts as the row does, or with what has been put in. -/
theorem head?_replacePair (a b c x : Char) (rest : List Char) :
    (replacePair a b c (x :: rest)).head? = some x ∨
      (replacePair a b c (x :: rest)).head? = some c := by
  cases rest with
  | nil => exact .inl rfl
  | cons y rest =>
      rw [replacePair]
      split
      · exact .inr rfl
      · exact .inl rfl

/-- A row of decimal digits of any script writes a number. -/
def Writes (s : String) (n : Nat) : Prop :=
  ∃ digits : List Nat, digits ≠ [] ∧ s.toList.map decimalValue? = digits.map some ∧
    n = Nat.ofDigits 10 digits.reverse

theorem mapM_decimalValue?_eq_some {cs : List Char} {digits : List Nat} :
    cs.mapM decimalValue? = some digits ↔ cs.map decimalValue? = digits.map some := by
  induction cs generalizing digits with
  | nil => cases digits <;> simp
  | cons c cs ih =>
      rw [List.mapM_cons]
      cases digits with
      | nil => simp [Option.bind_eq_some_iff]
      | cons d digits => simp [Option.bind_eq_some_iff, ih]

/-- Within the limit, a number is read exactly from the rows that write it. -/
theorem decimal?_eq_some_iff {s : String} (hlimit : s.toList.length ≤ digitLimit) {n : Nat} :
    decimal? s.toList = some n ↔ Writes s n := by
  have hfold (digits : List Nat) :
      digits.foldl (fun n d => 10 * n + d) 0 = Nat.ofDigits 10 digits.reverse := by
    rw [Nat.ofDigits_eq_foldr, List.foldr_reverse]
    congr 1
    funext n d
    simp [Nat.add_comm]
  unfold decimal? Writes
  cases hs : s.toList with
  | nil => simp
  | cons c cs =>
      rw [if_neg (by simpa [hs] using hlimit), Option.map_eq_some_iff]
      constructor
      · rintro ⟨digits, hdigits, rfl⟩
        rw [mapM_decimalValue?_eq_some] at hdigits
        refine ⟨digits, ?_, hdigits, hfold digits⟩
        rintro rfl
        simp at hdigits
      · rintro ⟨digits, -, hdigits, rfl⟩
        exact ⟨digits, mapM_decimalValue?_eq_some.2 hdigits, hfold digits⟩

/-- What writes a number consists of digits. -/
theorem isDigits_of_writes {s : String} {n : Nat} (h : Writes s n) : isDigits s = true := by
  obtain ⟨digits, hne, hdigits, -⟩ := h
  have hnonempty : s ≠ "" := by
    rintro rfl
    cases digits with
    | nil => exact hne rfl
    | cons d digits => simp at hdigits
  have hall : ∀ c ∈ s.toList, isDigit c = true := by
    intro c hc
    have hmem : decimalValue? c ∈ digits.map some := hdigits ▸ List.mem_map_of_mem hc
    obtain ⟨d, -, hd⟩ := List.mem_map.1 hmem
    simp [isDigit, ← hd]
  simpa [isDigits, hnonempty] using hall

end Text

namespace Pointer

/-- Undoing both escapes in one pass is undoing `~1` in a first pass and `~0` in a second one. -/
theorem unescape_eq_replace (cs : List Char) :
    unescape cs = Text.replacePair '~' '0' '~' (Text.replacePair '~' '1' '/' cs) := by
  fun_induction unescape cs with
  | case1 rest ih =>
      rw [ih, Text.replacePair, if_pos ⟨rfl, rfl⟩,
        Text.replacePair_cons_of_ne (by decide) (Text.replacePair '~' '1' '/' rest)]
  | case2 rest ih =>
      rw [ih, Text.replacePair, if_neg (by decide),
        Text.replacePair_cons_of_ne (by decide) rest, Text.replacePair, if_pos ⟨rfl, rfl⟩]
  | case3 c rest hslash htilde ih =>
      by_cases hc : c = '~'
      · subst hc
        cases rest with
        | nil => rfl
        | cons d rest =>
            -- What follows a tilde that begins no escape does not turn into one.
            have hd : d ≠ '1' := fun h => hslash rest rfl (by rw [h])
            have hd₀ : d ≠ '0' := fun h => htilde rest rfl (by rw [h])
            rw [ih, Text.replacePair, if_neg fun h => hd h.2]
            have hhead := Text.head?_replacePair '~' '1' '/' d rest
            cases hreplaced : Text.replacePair '~' '1' '/' (d :: rest) with
            | nil => rfl
            | cons e rest' =>
                rw [hreplaced, List.head?_cons, Option.some.injEq, Option.some.injEq] at hhead
                have he : e ≠ '0' := by
                  rcases hhead with rfl | rfl
                  · exact hd₀
                  · decide
                conv_rhs => rw [Text.replacePair, if_neg fun h => he h.2]
      · rw [ih, Text.replacePair_cons_of_ne hc, Text.replacePair_cons_of_ne hc]
  | case4 => rfl

/-- A segment as it stands in a pointer, with both escapes undone one after the other. -/
def segmentOf (raw : String) : String :=
  String.ofList (Text.replacePair '~' '0' '~' (Text.replacePair '~' '1' '/' raw.toList))

theorem slash_notMem_escape (cs : List Char) : '/' ∉ escape cs := by
  fun_induction escape cs <;> simp_all [eq_comm]

/-- The segments of a pointer are the parts between its slashes, with their escapes undone. -/
theorem segments?_join {raws : List String} (hne : raws ≠ []) (h : ∀ raw ∈ raws, '/' ∉ raw.toList) :
    segments? (start ++ Text.join "/" raws) = some (raws.map segmentOf) := by
  have hstart : Text.startsWith (start ++ Text.join "/" raws).toList start.toList = true := by
    rw [Text.startsWith, List.isPrefixOf_iff_prefix, String.toList_append]
    exact List.prefix_append _ _
  have hdrop :
      (start ++ Text.join "/" raws).toList.drop start.length = (Text.join "/" raws).toList := by
    rw [String.toList_append, ← String.length_toList, List.drop_left]
  rw [segments?, if_pos hstart, hdrop, show "/" = String.singleton '/' from rfl,
    Text.pieces_join_of_notMem hne h, List.map_map]
  congr 1
  refine List.map_congr_left fun raw _ => ?_
  rw [Function.comp_apply, unescape_eq_replace]
  rfl

/-- What is written into a pointer is read from it. -/
theorem segments?_ofSegments {segments : List String} (hne : segments ≠ []) :
    segments? (ofSegments segments) = some segments := by
  have hmap : (segments.map fun s => String.ofList (escape s.toList)).map segmentOf = segments := by
    rw [List.map_map]
    conv_rhs => rw [← List.map_id segments]
    refine List.map_congr_left fun s _ => ?_
    rw [Function.comp_apply, segmentOf, String.toList_ofList, ← unescape_eq_replace,
      unescape_escape, String.ofList_toList]
    rfl
  rw [ofSegments, segments?_join (by simpa using hne) ?_, hmap]
  intro raw hraw
  obtain ⟨s, -, rfl⟩ := List.mem_map.1 hraw
  rw [String.toList_ofList]
  exact slash_notMem_escape s.toList

/-- Every text with the start of a pointer is made of parts between slashes. -/
theorem exists_eq_join {p : String} (h : start.toList <+: p.toList) :
    ∃ raws : List String, raws ≠ [] ∧ (∀ raw ∈ raws, '/' ∉ raw.toList) ∧
      p = start ++ Text.join "/" raws := by
  obtain ⟨rest, hrest⟩ := h
  obtain ⟨raws, hne, hraws, hjoin⟩ := Text.exists_join_eq '/' rest
  refine ⟨raws, hne, hraws, String.toList_inj.1 ?_⟩
  rw [← hrest, String.toList_append, ← hjoin]
  rfl

/-- One step from a node along a segment. -/
inductive Step : Value → String → Value → Prop
  | key {origin : Nat} {entries : Value.Entries} {segment : String} {next : Value}
      (h : Value.find? (.str segment) entries = some next) : Step (.map origin entries) segment next
  | position {items : List Value} {segment : String} {n : Nat} {next : Value}
      (hn : Text.Writes segment n) (h : items[n]? = some next) : Step (.seq items) segment next

/-- Walking from a node along segments leads to a node. -/
inductive Leads : Value → List String → Value → Prop
  | here (node : Value) : Leads node [] node
  | step {node next target : Value} {segment : String} {rest : List String}
      (h : Step node segment next) (hrest : Leads next rest target) :
      Leads node (segment :: rest) target

/-- A list is asked for a position that consists of digits and still is no number: one of its
digits has no positional value, or there are too many of them. -/
def Unreadable (node : Value) (segment : String) : Prop :=
  (∃ items, node = .seq items) ∧ Text.isDigits segment = true ∧
    ((∃ c ∈ segment.toList, Text.decimalValue? c = none) ∨
      Text.digitLimit < segment.toList.length)

/-- No list on the way along segments is asked for a position that is no number. -/
def Readable (node : Value) (segments : List String) : Prop :=
  ∀ walked segment rest place, segments = walked ++ segment :: rest → Leads node walked place →
    ¬ Unreadable place segment

theorem Readable.of_step {node next : Value} {segment : String} {rest : List String}
    (h : Readable node (segment :: rest)) (hstep : Step node segment next) :
    Readable next rest := by
  intro walked s rest' place heq hwalked
  exact h (segment :: walked) s rest' place (by rw [heq, List.cons_append]) (.step hstep hwalked)

/-- Segments whose digits all have a value are read by every list. -/
theorem readable_of_values (node : Value) {segments : List String}
    (h : ∀ segment ∈ segments, Text.isDigits segment = true →
      (∀ c ∈ segment.toList, Text.decimalValue? c ≠ none) ∧
        segment.toList.length ≤ Text.digitLimit) : Readable node segments := by
  rintro walked segment rest place heq - ⟨-, hdigits, hread⟩
  obtain ⟨hvalues, hlimit⟩ := h segment (by rw [heq]; simp) hdigits
  rcases hread with ⟨c, hc, hnone⟩ | hlong
  · exact hvalues c hc hnone
  · exact absurd hlimit (Nat.not_le.2 hlong)

theorem Step.unique {node next next' : Value} {segment : String} (h : Step node segment next)
    (h' : Step node segment next') : next = next' := by
  cases h with
  | key h =>
      cases h' with
      | key h' => exact Option.some.inj (h.symm.trans h')
  | position hn h =>
      cases h' with
      | position hn' h' =>
          obtain ⟨digits, -, hdigits, rfl⟩ := hn
          obtain ⟨digits', -, hdigits', rfl⟩ := hn'
          have hsame : digits = digits' :=
            List.map_injective_iff.2 (Option.some_injective Nat) (hdigits.symm.trans hdigits')
          rw [hsame, h'] at h
          exact (Option.some.inj h).symm

/-- A step that can be read is made exactly where there is something. -/
theorem step?_eq_of_step {node next : Value} {segment : String} (hr : ¬ Unreadable node segment)
    (h : Step node segment next) : step? node segment = .ok (some next) := by
  cases h with
  | key h => rw [step?, h]
  | @position items _ n _ hn h =>
      have hdigits := Text.isDigits_of_writes hn
      have hlimit : segment.toList.length ≤ Text.digitLimit := by
        by_contra hlong
        exact hr ⟨⟨items, rfl⟩, hdigits, .inr (by omega)⟩
      rw [step?, if_pos hdigits, (Text.decimal?_eq_some_iff hlimit).2 hn]
      exact congrArg Except.ok h

theorem step?_eq_of_not_step {node : Value} {segment : String} (hr : ¬ Unreadable node segment)
    (h : ¬ ∃ next, Step node segment next) : step? node segment = .ok none := by
  unfold step?
  split
  · next origin entries =>
      cases hfind : Value.find? (.str segment) entries with
      | none => rfl
      | some next => exact absurd ⟨next, .key hfind⟩ h
  · next items =>
      split
      · next hdigits =>
          have hlimit : segment.toList.length ≤ Text.digitLimit := by
            by_contra hlong
            exact hr ⟨⟨items, rfl⟩, hdigits, .inr (by omega)⟩
          cases hdecimal : Text.decimal? segment.toList with
          | none =>
              -- Every digit has a value, so a number is written after all.
              exfalso
              have hvalues : ∀ c ∈ segment.toList, (Text.decimalValue? c).isSome := by
                intro c hc
                by_contra hnone
                exact hr ⟨⟨items, rfl⟩, hdigits,
                  .inl ⟨c, hc, Option.not_isSome_iff_eq_none.1 hnone⟩⟩
              have hne : segment.toList ≠ [] := by
                intro hnil
                simp [Text.isDigits, String.toList_eq_nil_iff.1 hnil] at hdigits
              have hwrites : ∃ n, Text.Writes segment n := by
                refine ⟨_, segment.toList.map fun c => (Text.decimalValue? c).getD 0,
                  by simpa using hne,
                  ?_, rfl⟩
                rw [List.map_map]
                refine List.map_congr_left fun c hc => ?_
                obtain ⟨d, hd⟩ := Option.isSome_iff_exists.1 (hvalues c hc)
                simp [hd]
              obtain ⟨n, hn⟩ := hwrites
              rw [(Text.decimal?_eq_some_iff hlimit).2 hn] at hdecimal
              cases hdecimal
          | some n =>
              have hn := (Text.decimal?_eq_some_iff hlimit).1 hdecimal
              cases hitem : items[n]? with
              | none => simp [hitem]
              | some next => exact absurd ⟨next, .position hn hitem⟩ h
      · rfl
  · rfl

/-- A walk that can be read ends at what the segments lead to. -/
theorem walk_eq_of_leads {p : String} {segments walked : List String} {node target : Value}
    (hr : Readable node segments) (h : Leads node segments target) :
    walk p walked node segments = .ok target := by
  induction h generalizing walked with
  | here node => rfl
  | @step node next target segment rest hstep hrest ih =>
      have hread := hr [] segment rest node rfl (.here node)
      rw [walk, step?_eq_of_step hread hstep]
      exact ih (hr.of_step hstep)

/-- A walk that can be read and leads nowhere reports the segments up to the first step that leads
nowhere. -/
theorem walk_eq_of_isLeast {p : String} {segments walked : List String} {node : Value} {k : Nat}
    (hr : Readable node segments)
    (h : IsLeast {k | ¬ ∃ target, Leads node (segments.take k) target} k) :
    walk p walked node segments =
      .error (.of (.referenceNotFound p (Text.join "/" (walked.reverse ++ segments.take k)))) := by
  obtain ⟨hfails, hleast⟩ := h
  induction segments generalizing walked node k with
  | nil =>
      rw [Set.mem_ofPred_eq, List.take_nil] at hfails
      exact absurd ⟨node, .here node⟩ hfails
  | cons segment rest ih =>
      cases k with
      | zero => exact absurd ⟨node, .here node⟩ hfails
      | succ k =>
          have hread := hr [] segment rest node rfl (.here node)
          rw [walk]
          by_cases hstep : ∃ next, Step node segment next
          · obtain ⟨next, hstep⟩ := hstep
            rw [step?_eq_of_step hread hstep]
            have hshift (j : Nat) : (∃ target, Leads node ((segment :: rest).take (j + 1)) target) ↔
                ∃ target, Leads next (rest.take j) target := by
              rw [List.take_succ_cons]
              constructor
              · rintro ⟨target, h⟩
                cases h with
                | step h hrest => exact ⟨target, hstep.unique h ▸ hrest⟩
              · rintro ⟨target, h⟩
                exact ⟨target, .step hstep h⟩
            have hfails' : k ∈ {k | ¬ ∃ target, Leads next (rest.take k) target} := by
              rwa [Set.mem_ofPred_eq, ← hshift]
            have hleast' : k ∈ lowerBounds {k | ¬ ∃ target, Leads next (rest.take k) target} := by
              intro j hj
              rw [Set.mem_ofPred_eq, ← hshift] at hj
              exact Nat.le_of_succ_le_succ (hleast hj)
            have hwalk := @ih (segment :: walked) next k (hr.of_step hstep) hfails' hleast'
            rw [List.reverse_cons, List.append_assoc, List.singleton_append] at hwalk
            rw [List.take_succ_cons]
            exact hwalk
          · -- The first step already leads nowhere, so no more is reported.
            have hone : ¬ ∃ target, Leads node ((segment :: rest).take 1) target := by
              rintro ⟨target, h⟩
              cases h with
              | step h _ => exact hstep ⟨_, h⟩
            have hk : k + 1 ≤ 1 := hleast hone
            obtain rfl : k = 0 := by omega
            rw [step?_eq_of_not_step hread hstep, List.reverse_cons]
            rfl

end Pointer

/-- What following a pointer gives whose segments are read as the given ones: their last one and
the node that they lead to, and otherwise word of what is missing. -/
structure Document.Designates (doc : Document) (p : String) (segments : List String) : Prop where
  found (name : String) (node : Value) : doc.resolve (.str p) = .ok (name, node) ↔
    (doc.root.get "components").isMap = true ∧ segments.getLast? = some name ∧
      Pointer.Leads (doc.root.get "components") segments node
  noComponents : (doc.root.get "components").isMap = false →
    doc.resolve (.str p) = .error (.of (.referenceNotFound p "components"))
  missing (k : Nat) : (doc.root.get "components").isMap = true →
    IsLeast {k | ¬ ∃ node, Pointer.Leads (doc.root.get "components") (segments.take k) node} k →
    doc.resolve (.str p) =
      .error (.of (.referenceNotFound p (Text.join "/" (segments.take k))))

namespace Document

open Pointer

variable {doc : Document} {p : String} {segments : List String}

theorem resolve_of_segments? (h : segments? p = some segments) :
    doc.resolve (.str p) =
      if (doc.root.get "components").isMap then
        (walk p [] (doc.root.get "components") segments).map fun node =>
          (lastSegment segments, node)
      else .error (.of (.referenceNotFound p "components")) := by
  unfold resolve
  dsimp only
  rw [h]

theorem designates_of_segments? (h : segments? p = some segments) (hne : segments ≠ [])
    (hr : Readable (doc.root.get "components") segments) : doc.Designates p segments := by
  have hlast : segments.getLast? = some (lastSegment segments) := by
    rw [lastSegment, List.getLast?_eq_some_getLast hne, Option.getD_some]
  constructor
  case found =>
    intro name node
    rw [resolve_of_segments? h]
    split
    · next hmap =>
        simp only [hmap, true_and]
        constructor
        · intro hok
          by_cases hleads : ∃ target, Leads (doc.root.get "components") segments target
          · obtain ⟨target, hleads⟩ := hleads
            rw [walk_eq_of_leads hr hleads] at hok
            obtain ⟨rfl, rfl⟩ := Prod.mk.inj (Except.ok.inj hok)
            exact ⟨hlast, hleads⟩
          · -- What leads nowhere first leads nowhere at some segment.
            exfalso
            have hfails : ∃ k, ¬ ∃ target,
                Leads (doc.root.get "components") (segments.take k) target :=
              ⟨segments.length, by rwa [List.take_length]⟩
            classical
            rw [walk_eq_of_isLeast hr
              ⟨Nat.find_spec hfails, fun j hj => Nat.find_min' hfails hj⟩] at hok
            cases hok
        · rintro ⟨hname, hleads⟩
          rw [walk_eq_of_leads hr hleads]
          rw [hlast] at hname
          exact congrArg (fun name => Except.ok (name, node)) (Option.some.inj hname)
    · next hmap => simp [hmap]
  case noComponents =>
    intro hmap
    rw [resolve_of_segments? h, if_neg (by simp [hmap])]
  case missing =>
    intro k hmap hleast
    rw [resolve_of_segments? h, if_pos hmap, walk_eq_of_isLeast hr hleast]
    rfl

/-- A pointer designates what its segments lead to, however they are written: segments written into
a pointer are read from it, whatever texts they are; every text with the start of a pointer is read
as the parts between its slashes, first `~1` and then `~0` undone in each; and nothing else is a
pointer, every text and every other value that has a text being reported as such.  Where the
segments lead nowhere, the shortest row of them that does is reported. -/
theorem resolve_designates (doc : Document) :
    (∀ segments : List String, segments ≠ [] → Readable (doc.root.get "components") segments →
      doc.Designates (ofSegments segments) segments) ∧
    (∀ p : String, start.toList <+: p.toList → ∃ raws : List String, raws ≠ [] ∧
      (∀ raw ∈ raws, '/' ∉ raw.toList) ∧ p = start ++ Text.join "/" raws ∧
      (Readable (doc.root.get "components") (raws.map segmentOf) →
        doc.Designates p (raws.map segmentOf))) ∧
    ∀ v : Value, v.hasText = true → (∀ p, v = .str p → ¬ start.toList <+: p.toList) →
      doc.resolve v = .error (.of (.unsupportedReference v.text)) := by
  refine ⟨fun segments hne hr => ?_, fun p hp => ?_, fun v htext hv => ?_⟩
  · exact designates_of_segments? (segments?_ofSegments hne) hne hr
  · obtain ⟨raws, hne, hraws, rfl⟩ := exists_eq_join hp
    refine ⟨raws, hne, hraws, rfl, fun hr => ?_⟩
    exact designates_of_segments? (segments?_join hne hraws) (by simpa using hne) hr
  · unfold resolve
    split
    · next p =>
        have hnone : segments? p = none := by
          rw [segments?, Text.startsWith, if_neg]
          rw [List.isPrefixOf_iff_prefix]
          exact hv p rfl
        rw [hnone, Value.text_str]
    · rw [Fault.ofValue, if_pos htext]

/-- Components with a list under a name in which both escaped characters occur. -/
def escapedDocument : Document :=
  .ofValue <| .map 0 [(.str "components", .map 1 [(.str "schemas", .map 2
    [(.str "a/b~1", .seq [.str "first", .str "second"])])])]

/-- The segments `schemas`, `a/b~1` and `01` are written into a pointer to the second entry of the
list. -/
theorem escapedDocument_resolve :
    ofSegments ["schemas", "a/b~1", "01"] = "#/components/schemas/a~1b~01/01" ∧
      escapedDocument.resolve (.str (ofSegments ["schemas", "a/b~1", "01"])) =
        .ok ("01", .str "second") := by
  refine ⟨by decide +kernel, ?_⟩
  have hvalues : ∀ segment ∈ ["schemas", "a/b~1", "01"], Text.isDigits segment = true →
      (segment.toList.all fun c => (Text.decimalValue? c).isSome) = true ∧
        segment.toList.length ≤ Text.digitLimit := by
    decide +kernel
  have hreadable := readable_of_values (escapedDocument.root.get "components")
    fun segment hsegment hdigits =>
      let ⟨hsome, hlimit⟩ := hvalues segment hsegment hdigits
      ⟨fun c hc => Option.isSome_iff_ne_none.1 (List.all_eq_true.1 hsome c hc), hlimit⟩
  have hdesignates := (resolve_designates escapedDocument).1 ["schemas", "a/b~1", "01"]
    (List.cons_ne_nil _ _) hreadable
  refine (hdesignates.found "01" (.str "second")).2 ⟨rfl, rfl, ?_⟩
  exact .step (.key rfl) <| .step (.key rfl) <|
    .step (.position ⟨[0, 1], by decide, by decide +kernel, rfl⟩ rfl) <| .here _

end Document

end OpenApiClient
