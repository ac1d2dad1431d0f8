import Mathlib.Data.List.Basic
import OpenApiClient.Disk.Basic

/-!
# What stands at the places of a file tree

At a place stands nothing, a directory or a file.  Putting something there that has nothing below
it changes that place only, and makes directories of the places above it where nothing stood; taking
a file away changes its place only.  A path leads to the place that its names alone would lead to,
and still does when directories are added.
-/

namespace OpenApiClient

/-- What stands at a place. -/
inductive Standing where
  | nothing
  | directory
  | file (bytes : List UInt8)
  deriving DecidableEq

theorem Standing.nothing_ne_directory : nothing ≠ directory := Standing.noConfusion

theorem Standing.file_ne_directory (bytes : List UInt8) : file bytes ≠ directory :=
  Standing.noConfusion

namespace FileTree

/-- What a tree is at its root. -/
def kind : FileTree → Standing
  | .file bytes => .file bytes
  | .directory _ => .directory

/-- What stands at a place of a tree. -/
def standing (t : FileTree) (place : Place) : Standing := ((t.get? place).map kind).getD .nothing

variable {t t' new : FileTree} {place up q : Place} {name : String} {rest : Place}
  {entries : List (String × FileTree)} {bytes : List UInt8}

theorem standing_nil (t : FileTree) : t.standing [] = t.kind := by
  cases t <;> rfl

theorem standing_file_cons (bytes : List UInt8) (name : String) (rest : Place) :
    (file bytes).standing (name :: rest) = .nothing := rfl

theorem standing_directory_cons (entries : List (String × FileTree)) (name : String)
    (rest : Place) :
    (directory entries).standing (name :: rest) =
      ((entries.lookup name).map (standing · rest)).getD .nothing := by
  unfold standing
  rw [get?]
  cases entries.lookup name <;> rfl

theorem get?_eq_none_iff : t.get? place = none ↔ t.standing place = .nothing := by
  unfold standing
  cases h : t.get? place with
  | none => simp
  | some t' => cases t' <;> simp [kind]

theorem standing_eq_file_iff :
    t.standing place = .file bytes ↔ t.get? place = some (.file bytes) := by
  unfold standing
  cases h : t.get? place with
  | none => simp
  | some t' => cases t' <;> simp [kind]

theorem standing_eq_directory_iff :
    t.standing place = .directory ↔ ∃ entries, t.get? place = some (.directory entries) := by
  unfold standing
  cases h : t.get? place with
  | none => simp
  | some t' => cases t' <;> simp [kind]

theorem standing_of_lookup (h : entries.lookup name = some t) (rest : Place) :
    (directory entries).standing (name :: rest) = t.standing rest := by
  rw [standing_directory_cons, h]
  rfl

theorem exists_lookup_of_standing (h : (directory entries).standing (name :: rest) ≠ .nothing) :
    ∃ t, entries.lookup name = some t := by
  cases hl : entries.lookup name with
  | none => exact absurd (by rw [standing_directory_cons, hl]; rfl) h
  | some t => exact ⟨t, rfl⟩

/-- In a directory where something else has a name now, the places below that name have changed. -/
theorem standing_setEntry (name : String) (new : FileTree) (entries : List (String × FileTree))
    (other : String) (rest : Place) :
    (directory (setEntry name new entries)).standing (other :: rest) =
      if other = name then new.standing rest else (directory entries).standing (other :: rest) := by
  rw [standing_directory_cons]
  split
  · next h =>
      subst h
      rw [lookup_setEntry_self]
      rfl
  · next h => rw [lookup_setEntry_of_ne h, ← standing_directory_cons]

/-- What stands below a place stands in a directory. -/
theorem standing_of_append (h : t.standing (up ++ name :: rest) ≠ .nothing) :
    t.standing up = .directory := by
  induction up generalizing t with
  | nil =>
      cases t with
      | file bytes => exact absurd (standing_file_cons bytes name rest) h
      | directory entries => rfl
  | cons n up ih =>
      cases t with
      | file bytes => exact absurd (standing_file_cons bytes n _) h
      | directory entries =>
          obtain ⟨t, hl⟩ := exists_lookup_of_standing h
          rw [List.cons_append, standing_of_lookup hl] at h
          rw [standing_of_lookup hl]
          exact ih h

theorem standing_below (h : t.standing [name] ≠ .directory) (other : String) (rest : Place) :
    t.standing (name :: other :: rest) = .nothing := by
  by_contra hsome
  have hup : t.standing [name] = .directory :=
    standing_of_append (hsome : t.standing ([name] ++ other :: rest) ≠ .nothing)
  exact h hup

/-- A file or an empty directory: nothing stands below it. -/
def IsLeaf (t : FileTree) : Prop := ∀ name rest, t.standing (name :: rest) = .nothing

theorem isLeaf_file (bytes : List UInt8) : (file bytes).IsLeaf := standing_file_cons bytes

theorem IsLeaf.standing (h : new.IsLeaf) (place : Place) :
    new.standing place = if place = [] then new.kind else .nothing := by
  cases place with
  | nil => rw [if_pos rfl, standing_nil]
  | cons name rest => rw [if_neg (List.cons_ne_nil name rest), h]

/-- What is put into a directory under a name stands there, and nothing else changes. -/
theorem standing_put (hup : t.standing up = .directory)
    (hold : t.standing (up ++ [name]) ≠ .directory)
    (hnew : new.IsLeaf) (q : Place) : (t.put (up ++ [name]) new).standing q =
      if q = up ++ [name] then new.kind else t.standing q := by
  induction up generalizing t q with
  | nil =>
      obtain ⟨entries, hget⟩ := standing_eq_directory_iff.1 hup
      obtain rfl : t = directory entries := by simpa [get?] using hget
      rw [List.nil_append, put, put]
      cases q with
      | nil => rfl
      | cons n rest =>
          rw [standing_setEntry]
          by_cases hn : n = name
          · subst hn
            rw [if_pos rfl, hnew.standing]
            cases rest with
            | nil => simp
            | cons n' rest => simp [standing_below hold]
          · rw [if_neg hn, if_neg (by simp [hn])]
  | cons n up ih =>
      cases t with
      | file bytes => exact absurd hup (by simp [standing_file_cons])
      | directory entries =>
          obtain ⟨t, hl⟩ := exists_lookup_of_standing (hup ▸ Standing.nothing_ne_directory.symm)
          rw [standing_of_lookup hl] at hup
          rw [List.cons_append, standing_of_lookup hl] at hold
          rw [List.cons_append, put, hl, Option.getD_some]
          cases q with
          | nil => rfl
          | cons n' rest =>
              rw [standing_setEntry]
              by_cases hn : n' = n
              · subst hn
                rw [if_pos rfl, ih hup hold, standing_of_lookup hl]
                simp
              · rw [if_neg hn, if_neg (by simp [hn])]

/-- Where a directory is put, it stands, and so do directories above it where nothing stood; nothing
else changes. -/
theorem standing_put_empty (hnone : t.standing place = .nothing) (q : Place) :
    (t.put place empty).standing q = t.standing q ∨
      q <+: place ∧ t.standing q = .nothing ∧ (t.put place empty).standing q = .directory := by
  induction place generalizing t q with
  | nil => exact absurd hnone (by cases t <;> simp [standing_nil, kind])
  | cons n place ih =>
      cases t with
      | file bytes => exact .inl rfl
      | directory entries =>
          rw [put]
          cases q with
          | nil => exact .inl rfl
          | cons n' rest =>
              rw [standing_setEntry]
              by_cases hn : n' = n
              · subst hn
                rw [if_pos rfl]
                cases hl : entries.lookup n' with
                | none =>
                    -- What was not there is made as if in an empty directory.
                    rw [Option.getD_none, standing_directory_cons, hl]
                    cases rest with
                    | nil => exact .inr ⟨List.prefix_append [n'] _, rfl, by cases place <;> rfl⟩
                    | cons n₁ rest =>
                        cases place with
                        | nil => exact .inl rfl
                        | cons n place =>
                            rcases ih (t := empty) rfl (n₁ :: rest) with h | ⟨hway, -, hnew⟩
                            · exact .inl h
                            · exact .inr ⟨List.cons_prefix_cons.2 ⟨rfl, hway⟩, rfl, hnew⟩
                | some t =>
                    rw [standing_of_lookup hl] at hnone ⊢
                    rcases ih hnone rest with h | ⟨hway, hold, hnew⟩
                    · exact .inl h
                    · exact .inr ⟨List.cons_prefix_cons.2 ⟨rfl, hway⟩, hold, hnew⟩
              · exact .inl (if_neg hn)

theorem lookup_filter (entries : List (String × FileTree)) (name other : String) :
    (entries.filter (·.1 != name)).lookup other =
      if other = name then none else entries.lookup other := by
  induction entries with
  | nil => simp
  | cons e entries ih =>
      obtain ⟨n, t⟩ := e
      by_cases hn : n = name
      · subst hn
        rw [List.filter_cons_of_neg (by simp), ih]
        split
        · rfl
        · next hne => rw [List.lookup_cons, beq_false_of_ne hne]
      · rw [List.filter_cons_of_pos (by simpa using hn), List.lookup_cons, List.lookup_cons, ih]
        by_cases ho : other = n
        · subst ho
          simp [hn]
        · simp [beq_false_of_ne ho]

theorem standing_filter (name : String) (entries : List (String × FileTree)) (other : String)
    (rest : Place) : (directory (entries.filter (·.1 != name))).standing (other :: rest) =
      if other = name then .nothing else (directory entries).standing (other :: rest) := by
  rw [standing_directory_cons, standing_directory_cons, lookup_filter]
  split <;> rfl

/-- Where a file is taken away, nothing stands any more, and nothing else changes. -/
theorem standing_erase (hfile : t.standing place = .file bytes) (hne : place ≠ []) (q : Place) :
    (t.erase place).standing q = if q = place then .nothing else t.standing q := by
  induction place generalizing t q with
  | nil => exact absurd rfl hne
  | cons n place ih =>
      cases t with
      | file bytes => exact absurd hfile (by simp [standing_file_cons])
      | directory entries =>
          cases place with
          | nil =>
              have hleaf := standing_below (hfile ▸ Standing.file_ne_directory bytes)
              rw [erase]
              cases q with
              | nil => rfl
              | cons n' rest =>
                  rw [standing_filter]
                  by_cases hn : n' = n
                  · subst hn
                    rw [if_pos rfl]
                    cases rest with
                    | nil => simp
                    | cons n₁ rest => simp [hleaf]
                  · rw [if_neg hn, if_neg (by simp [hn])]
          | cons n₁ place =>
              obtain ⟨t, hl⟩ :=
                exists_lookup_of_standing (by rw [hfile]; exact Standing.noConfusion)
              rw [standing_of_lookup hl] at hfile
              have herase : (directory entries).erase (n :: n₁ :: place) =
                  directory (setEntry n (t.erase (n₁ :: place)) entries) := by
                simp [erase, hl]
              rw [herase]
              cases q with
              | nil => rfl
              | cons n' rest =>
                  rw [standing_setEntry]
                  by_cases hn : n' = n
                  · subst hn
                    rw [if_pos rfl, ih hfile (List.cons_ne_nil _ _), standing_of_lookup hl]
                    simp
                  · rw [if_neg hn, if_neg (by simp [hn])]

/-- A file that is put elsewhere stands there, and where it stood stands nothing any more. -/
theorem standing_put_erase {start : Place} (hfile : t.standing start = .file bytes)
    (hne : start ≠ [])
    (hup : t.standing up = .directory) (hold : t.standing (up ++ [name]) ≠ .directory) (q : Place) :
    ((t.erase start).put (up ++ [name]) (.file bytes)).standing q =
      if q = up ++ [name] then .file bytes else if q = start then .nothing else t.standing q := by
  have herase := standing_erase hfile hne
  have hupstart : up ≠ start := by
    rintro rfl
    exact Standing.file_ne_directory bytes (hfile.symm.trans hup)
  have hdirectory : (t.erase start).standing up = .directory := by
    rw [herase, if_neg hupstart, hup]
  have hother : (t.erase start).standing (up ++ [name]) ≠ .directory := by
    rw [herase]
    split
    · exact Standing.nothing_ne_directory
    · exact hold
  rw [standing_put hdirectory hother (isLeaf_file bytes), herase]
  rfl

/-! ## Walks along names -/

section Walk

variable {here : Place} {names : List String}

/-- A walk takes a step from a directory, with a name that is not too long. -/
theorem walk_cons_eq_ok_iff : t.walk here (name :: names) = .ok place ↔
    t.standing here = .directory ∧ name.utf8ByteSize ≤ Path.nameLimit ∧
      t.walk (if name = ".." then here.dropLast else here ++ [name]) names = .ok place := by
  rw [walk, standing_eq_directory_iff]
  cases t.get? here with
  | none => simp
  | some t₁ =>
      cases t₁ with
      | file bytes => simp
      | directory entries =>
          by_cases hlength : Path.nameLimit < name.utf8ByteSize
          · simp [hlength, Nat.not_le_of_lt hlength]
          · have hle := Nat.le_of_not_lt hlength
            dsimp only
            rw [if_neg hlength]
            split <;> simp [hle]

/-- A walk ends where its names lead. -/
theorem eq_resolveFrom_of_walk (h : t.walk here names = .ok place) :
    place = Path.resolveFrom here names := by
  induction names generalizing here with
  | nil => exact (Except.ok.inj h).symm
  | cons name names ih =>
      obtain ⟨-, -, hrest⟩ := walk_cons_eq_ok_iff.1 h
      rw [Path.resolveFrom]
      split at hrest
      · next hup => exact (ih hrest).trans (if_pos hup).symm
      · next hup => exact (ih hrest).trans (if_neg hup).symm

/-- A walk goes the same way where there are more directories. -/
theorem walk_of_directories (hdirs : ∀ q, t.standing q = .directory → t'.standing q = .directory)
    (h : t.walk here names = .ok place) : t'.walk here names = .ok place := by
  induction names generalizing here with
  | nil => exact h
  | cons name names ih =>
      obtain ⟨hhere, hlength, hrest⟩ := walk_cons_eq_ok_iff.1 h
      exact walk_cons_eq_ok_iff.2 ⟨hdirs here hhere, hlength, ih hrest⟩

/-- A walk ends at a directory or in one. -/
theorem standing_of_walk (h : t.walk here names = .ok place) (hne : names ≠ []) :
    t.standing place = .directory ∨
      ∃ up name, place = up ++ [name] ∧ t.standing up = .directory := by
  induction names generalizing here with
  | nil => exact absurd rfl hne
  | cons name names ih =>
      obtain ⟨hhere, -, hrest⟩ := walk_cons_eq_ok_iff.1 h
      cases names with
      | cons n names => exact ih hrest (List.cons_ne_nil n names)
      | nil =>
          obtain rfl := Except.ok.inj hrest
          split
          · rcases List.eq_nil_or_concat here with rfl | ⟨up, last, rfl⟩
            · exact .inl hhere
            · rw [List.concat_eq_append] at hhere
              rw [List.concat_eq_append, List.dropLast_concat]
              exact .inl
                (standing_of_append (by rw [hhere]; exact Standing.nothing_ne_directory.symm))
          · exact .inr ⟨here, name, rfl, hhere⟩

end Walk

end FileTree

end OpenApiClient
