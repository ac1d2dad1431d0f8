import Mathlib.Data.List.Basic
import OpenApiClient.Library.Namespace

/-!
# Cutting and joining

Cutting a text at a separator and joining the pieces are inverse to each other, as long as no piece
holds the separator.  A qualified name is cut into the parts of what it is qualified with, so its
last part is that of the name itself, and what stands before it tells its namespace.
-/

namespace OpenApiClient

namespace Text

/-- The pieces of two rows with a separator between them are those of the one and then those of the
other. -/
theorem pieces_append_cons (sep : Char) (cs rest : List Char) :
    pieces sep (cs ++ sep :: rest) = pieces sep cs ++ pieces sep rest := by
  induction cs with
  | nil => simp [pieces]
  | cons c cs ih =>
      rw [List.cons_append, pieces, pieces, ih]
      split
      · rfl
      · cases hcs : pieces sep cs with
        | nil => exact absurd hcs (pieces_ne_nil sep cs)
        | cons p ps => rfl

theorem pieces_of_notMem {sep : Char} {cs : List Char} (h : sep ∉ cs) : pieces sep cs = [cs] := by
  induction cs with
  | nil => rfl
  | cons c cs ih =>
      obtain ⟨hc, hcs⟩ := not_or.1 (mt List.mem_cons.2 h)
      rw [pieces, if_neg (Ne.symm hc), ih hcs]

theorem notMem_of_mem_pieces {sep : Char} {cs p : List Char} (h : p ∈ pieces sep cs) : sep ∉ p := by
  induction cs generalizing p with
  | nil =>
      rw [List.mem_singleton.1 h]
      exact List.not_mem_nil
  | cons c cs ih =>
      rw [pieces] at h
      split at h
      · rcases List.mem_cons.1 h with rfl | h
        · exact List.not_mem_nil
        · exact ih h
      · next hc =>
          cases hcs : pieces sep cs with
          | nil => exact absurd hcs (pieces_ne_nil sep cs)
          | cons q qs =>
              rw [hcs] at h ih
              rcases List.mem_cons.1 h with rfl | h
              · rw [List.mem_cons, not_or]
                exact ⟨Ne.symm hc, ih List.mem_cons_self⟩
              · exact ih (List.mem_cons_of_mem q h)

/-- What has been joined is cut into the pieces of its parts. -/
theorem pieces_join (sep : Char) {parts : List String} (hne : parts ≠ []) :
    pieces sep (join (String.singleton sep) parts).toList =
      parts.flatMap fun s => pieces sep s.toList := by
  induction parts with
  | nil => exact absurd rfl hne
  | cons s rest ih =>
      cases rest with
      | nil => exact (List.append_nil _).symm
      | cons t rest =>
          have hjoin : (join (String.singleton sep) (s :: t :: rest)).toList =
              s.toList ++ sep :: (join (String.singleton sep) (t :: rest)).toList := by
            simp [join]
          rw [hjoin, pieces_append_cons, ih (List.cons_ne_nil t rest)]
          rfl

/-- Parts without a separator are the pieces of what they are joined to. -/
theorem pieces_join_of_notMem {sep : Char} {parts : List String} (hne : parts ≠ [])
    (h : ∀ s ∈ parts, sep ∉ s.toList) :
    pieces sep (join (String.singleton sep) parts).toList = parts.map String.toList := by
  rw [pieces_join sep hne, ← List.flatMap_singleton' (parts.map String.toList), List.flatMap_map]
  exact List.flatMap_congr fun s hs => pieces_of_notMem (h s hs)

/-- Every row is joined of pieces that hold no separator. -/
theorem exists_join_eq (sep : Char) (cs : List Char) : ∃ parts : List String, parts ≠ [] ∧
    (∀ s ∈ parts, sep ∉ s.toList) ∧ (join (String.singleton sep) parts).toList = cs := by
  induction cs with
  | nil => exact ⟨[""], by simp, by simp, rfl⟩
  | cons c cs ih =>
      obtain ⟨parts, hne, hparts, hjoin⟩ := ih
      cases parts with
      | nil => exact absurd rfl hne
      | cons s rest =>
          by_cases hc : c = sep
          · refine ⟨"" :: s :: rest, by simp, ?_, ?_⟩
            · intro t ht
              rcases List.mem_cons.1 ht with rfl | ht
              · simp
              · exact hparts t ht
            · simp [join, hjoin, hc]
          · refine ⟨String.ofList (c :: s.toList) :: rest, by simp, ?_, ?_⟩
            · intro t ht
              rcases List.mem_cons.1 ht with rfl | ht
              · simpa using ⟨Ne.symm hc, hparts s List.mem_cons_self⟩
              · exact hparts t (List.mem_cons_of_mem s ht)
            · cases rest with
              | nil => simpa [join] using hjoin
              | cons t rest => simpa [join] using hjoin

theorem cut_ne_nil (sep : Char) (s : String) : cut sep s ≠ [] := by
  simpa [cut] using pieces_ne_nil sep s.toList

theorem cut_of_notMem {sep : Char} {s : String} (h : sep ∉ s.toList) : cut sep s = [s] := by
  rw [cut, pieces_of_notMem h, List.map_singleton, String.ofList_toList]

theorem cut_join (sep : Char) {parts : List String} (hne : parts ≠ []) :
    cut sep (join (String.singleton sep) parts) = parts.flatMap (cut sep) := by
  rw [cut, pieces_join sep hne, List.map_flatMap]
  rfl

/-- Pieces of a text are the pieces of what they are joined to. -/
theorem cut_join_of_subset {sep : Char} {s : String} {parts : List String} (hne : parts ≠ [])
    (h : parts ⊆ cut sep s) : cut sep (join (String.singleton sep) parts) = parts := by
  rw [cut_join sep hne]
  conv_rhs => rw [← List.flatMap_singleton' parts]
  refine List.flatMap_congr fun part hpart => ?_
  obtain ⟨p, hp, rfl⟩ := List.mem_map.1 (h hpart)
  exact cut_of_notMem (by rw [String.toList_ofList]; exact notMem_of_mem_pieces hp)

end Text

namespace Namespace

open Text

/-- The parts of what names are qualified with; nothing stands for an empty name. -/
def partsOf (names : List String) : List String :=
  (names.filter (!·.isEmpty)).flatMap (cut '\\')

theorem partsOf_append (names names' : List String) :
    partsOf (names ++ names') = partsOf names ++ partsOf names' := by
  rw [partsOf, List.filter_append, List.flatMap_append]
  rfl

theorem partsOf_singleton {name : String} (h : name ≠ "") : partsOf [name] = cut '\\' name := by
  rw [partsOf, List.filter_singleton, show (!name.isEmpty) = true by simpa using h, cond_true,
    List.flatMap_singleton]

theorem cut_qualify {names : List String} (h : ∃ name ∈ names, name ≠ "") :
    cut '\\' (qualify names) = partsOf names := by
  have hne : names.filter (!·.isEmpty) ≠ [] := by
    obtain ⟨name, hname, hfilled⟩ := h
    exact List.ne_nil_of_mem (List.mem_filter.2 ⟨hname, by simpa using hfilled⟩)
  rw [qualify, show "\\" = String.singleton '\\' from rfl, cut_join '\\' hne]
  rfl

/-- The last part of a qualified name is that of the name itself. -/
theorem lastPart_qualify (names : List String) {name : String} (h : name ≠ "") :
    lastPart (qualify (names ++ [name])) = lastPart name := by
  rw [lastPart, lastPart, cut_qualify ⟨name, by simp, h⟩, partsOf_append, partsOf_singleton h,
    List.getLast?_append_of_ne_nil _ (cut_ne_nil _ _)]

/-- What belongs to a namespace has one part more than it. -/
theorem dropLast_cut_of_ofName_eq {name base own : String} (hown : own ≠ "" ∧ '\\' ∉ own.toList)
    (h : ofName name = qualify [base, own]) :
    (cut '\\' name).dropLast = partsOf [base] ++ [own] := by
  have hcut := congrArg (cut '\\') h
  rw [cut_qualify ⟨own, by simp, hown.1⟩, show [base, own] = [base] ++ [own] from rfl,
    partsOf_append, partsOf_singleton hown.1, cut_of_notMem hown.2] at hcut
  rw [← hcut, ofName, show "\\" = String.singleton '\\' from rfl]
  refine (cut_join_of_subset ?_ (List.dropLast_subset _)).symm
  intro hnil
  rw [ofName, hnil] at hcut
  have hmem : own ∈ cut '\\' (join "\\" []) := by
    rw [hcut]
    simp
  exact hown.1 (List.mem_singleton.1 hmem)

/-- A name that is qualified with another part than a namespace does not belong to it. -/
theorem ofName_qualify_ne {base own other : String} (hown : own ≠ "" ∧ '\\' ∉ own.toList)
    (hother : other ≠ "" ∧ '\\' ∉ other.toList) (hne : other ≠ own) (name : String) :
    ofName (qualify [base, other, name]) ≠ qualify [base, own] := by
  intro h
  have hparts := dropLast_cut_of_ofName_eq hown h
  rw [cut_qualify ⟨other, by simp, hother.1⟩,
    show [base, other, name] = [base] ++ ([other] ++ [name]) from rfl, partsOf_append,
    partsOf_append, partsOf_singleton hother.1, cut_of_notMem hother.2] at hparts
  by_cases hname : name = ""
  · -- Without a name behind it the other part is the last one.
    rw [hname, show partsOf [""] = [] from rfl, List.append_nil, List.dropLast_concat] at hparts
    simpa using congrArg List.length hparts
  · rw [partsOf_singleton hname, List.singleton_append,
      List.dropLast_append_of_ne_nil (List.cons_ne_nil _ _),
      List.dropLast_cons_of_ne_nil (cut_ne_nil _ _)] at hparts
    have hcons := List.append_cancel_left hparts
    exact hne (List.cons.inj hcons).1

end Namespace

end OpenApiClient
