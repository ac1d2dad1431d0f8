import OpenApiClient.Proofs.Preference
import OpenApiClient.Proofs.Reading
import OpenApiClient.Proofs.Utf8

/-!
# What becomes of a project file

What a project file holds decides how a run goes on: it has settings or reports what is wrong with
the file or the settings, unless the bytes of the file are no text or the file is JSON up to an
integer with too many digits.  The run does not report these two, it is refused.
-/

namespace OpenApiClient.Settings

open Value Json

/-- The characters that bytes stand for, with a line feed at the end of each line. -/
def Shows (bytes : List UInt8) (cs : List Char) : Prop :=
  ∃ s : String, bytes = s.toUTF8.toList ∧ cs = Text.unixLines s.toList

/-- What a run may find where its project file should be. -/
inductive Found where
  | notText
  | longInteger
  | malformed
  | notAnObject
  /-- An object, or no file at all. -/
  | usable

/-- What is found in a project file, if there is one. -/
def Finds (project : Option (List UInt8)) : Found → Prop
  | .notText => ∃ bytes ∈ project, ∀ cs, ¬ Shows bytes cs
  | .longInteger => ∃ bytes ∈ project, ∃ cs, Shows bytes cs ∧ HasLongInteger cs
  | .malformed => ∃ bytes ∈ project, ∃ cs, Shows bytes cs ∧
      (∀ v, ¬ IsJson cs v) ∧ ¬ HasLongInteger cs
  | .notAnObject => ∃ bytes ∈ project, ∃ cs v, Shows bytes cs ∧ IsJson cs v ∧ v.isMap = false
  | .usable => ∀ bytes ∈ project, ∃ cs v, Shows bytes cs ∧ IsJson cs v ∧ v.isMap = true

/-- What a run comes to by what it finds. -/
def ComesTo (path : String) (result : Except Fault Settings) : Found → Prop
  | .notText => result = .error (.refused .notUtf8)
  | .longInteger => result = .error (.refused .notANumber)
  | .malformed => ∃ defect, result = .error (.of (.invalidProjectFile path (.malformed defect)))
  | .notAnObject => result = .error (.of (.invalidProjectFile path .notAnObject))
  | .usable => (∃ s, result = .ok s) ∨ ∃ issues, result = .error (.of (.invalidOptions issues))

/-- Settings, or a report of what is wrong with the project file or the settings. -/
def IsReported (path : String) (result : Except Fault Settings) : Prop :=
  ∀ fault, result = .error fault →
    (∃ reason, fault = .of (.invalidProjectFile path reason)) ∨
      ∃ issues, fault = .of (.invalidOptions issues)

variable {path : String} {project : Option (List UInt8)} {bytes : List UInt8} {cs : List Char}
  {environment : List (String × String)} {flags es : Entries} {v : Value}
  {result : Except Fault Settings}

theorem Shows.unique {cs' : List Char} (h : Shows bytes cs) (h' : Shows bytes cs') : cs = cs' := by
  obtain ⟨s, hs, rfl⟩ := h
  obtain ⟨s', hs', rfl⟩ := h'
  have hsame : s = s' := Except.ok.inj
    ((Text.decodeUtf8_eq_ok_iff.2 hs).symm.trans (Text.decodeUtf8_eq_ok_iff.2 hs'))
  rw [hsame]

/-! ### The project file -/

theorem loaded_of_not_shows (h : ∀ cs, ¬ Shows bytes cs) (path : String) :
    loaded path (some bytes) = .error (.refused .notUtf8) := by
  cases hdecode : Text.decodeUtf8 bytes with
  | error fault => rw [loaded, ofProjectFile, hdecode]
  | ok s => exact absurd ⟨s, Text.decodeUtf8_eq_ok_iff.1 hdecode, rfl⟩ (h _)

theorem loaded_of_shows (h : Shows bytes cs) (path : String) :
    loaded path (some bytes) =
      match read (String.ofList cs) with
      | .error .tooManyDigits => .error (.refused .notANumber)
      | .error (.malformed defect) => .error (.of (.invalidProjectFile path (.malformed defect)))
      | .ok (.map _ es) => .ok es
      | .ok _ => .error (.of (.invalidProjectFile path .notAnObject)) := by
  obtain ⟨s, hbytes, rfl⟩ := h
  rewrite [loaded, ofProjectFile, Text.decodeUtf8_eq_ok_iff.2 hbytes]
  rfl

theorem loaded_of_isJson (h : Shows bytes cs) (hjson : IsJson cs v) (path : String) :
    (v.isMap = true ∧ ∃ es, loaded path (some bytes) = .ok es) ∨
      v.isMap = false ∧
        loaded path (some bytes) = .error (.of (.invalidProjectFile path .notAnObject)) := by
  rw [← String.toList_ofList (l := cs)] at hjson
  obtain ⟨w, hread, rfl⟩ := exists_read_iff.2 hjson
  rw [loaded_of_shows h, hread, bare, isMap_rename]
  cases w with
  | map origin es => exact .inl ⟨rfl, es, rfl⟩
  | _ => exact .inr ⟨rfl, rfl⟩

/-! ### The run -/

theorem ofEntries_cases (es : Entries) :
    (∃ s, ofEntries es = .ok s) ∨ ∃ issues, ofEntries es = .error (.invalid .options issues) := by
  rw [ofEntries_eq, Fields.fill]
  split
  · exact .inl ⟨_, rfl⟩
  · exact .inr ⟨_, rfl⟩

/-- With the entries of the project file at hand, settings are found or issues are reported. -/
theorem comesTo_usable (h : loaded path project = .ok es) (environment : List (String × String))
    (flags : Entries) :
    ComesTo path (resolve path project environment flags) .usable := by
  rw [resolve_eq, h]
  simp only [bind, Except.bind]
  rcases ofEntries_cases (layered es environment flags) with ⟨s, hs⟩ | ⟨issues, hissues⟩
  · rw [hs]
    exact .inl ⟨s, rfl⟩
  · rw [hissues]
    exact .inr ⟨issues, rfl⟩

theorem resolve_of_loaded_error {fault : Fault} (h : loaded path project = .error fault)
    (environment : List (String × String)) (flags : Entries) :
    resolve path project environment flags = .error fault := by
  rw [resolve_eq, h]
  rfl

/-- What is found in the project file decides what a run comes to. -/
theorem Finds.comesTo {found : Found} (h : Finds project found) (path : String)
    (environment : List (String × String)) (flags : Entries) :
    ComesTo path (resolve path project environment flags) found := by
  cases found with
  | notText =>
      obtain ⟨bytes, rfl, hbytes⟩ := h
      exact resolve_of_loaded_error (loaded_of_not_shows hbytes path) _ _
  | longInteger =>
      obtain ⟨bytes, rfl, cs, hshows, hlong⟩ := h
      rw [← String.toList_ofList (l := cs)] at hlong
      refine resolve_of_loaded_error ?_ _ _
      rw [loaded_of_shows hshows, read_eq_tooManyDigits_iff.2 hlong]
  | malformed =>
      obtain ⟨bytes, rfl, cs, hshows, hnot⟩ := h
      rw [← String.toList_ofList (l := cs)] at hnot
      obtain ⟨defect, hread⟩ := exists_malformed_iff.2 hnot
      refine ⟨defect, resolve_of_loaded_error ?_ _ _⟩
      rw [loaded_of_shows hshows, hread]
  | notAnObject =>
      obtain ⟨bytes, rfl, cs, v, hshows, hjson, hmap⟩ := h
      rcases loaded_of_isJson hshows hjson path with ⟨hmap', -⟩ | ⟨-, hfile⟩
      · rw [hmap] at hmap'
        cases hmap'
      · exact resolve_of_loaded_error hfile _ _
  | usable =>
      cases project with
      | none => exact comesTo_usable rfl environment flags
      | some bytes =>
          obtain ⟨cs, v, hshows, hjson, hmap⟩ := h bytes rfl
          rcases loaded_of_isJson hshows hjson path with ⟨-, es, hfile⟩ | ⟨hmap', -⟩
          · exact comesTo_usable hfile environment flags
          · rw [hmap] at hmap'
            cases hmap'

/-- Whatever bytes a project file holds, it is one of the five. -/
theorem exists_finds (project : Option (List UInt8)) : ∃ found, Finds project found := by
  cases project with
  | none => exact ⟨.usable, nofun⟩
  | some bytes =>
      by_cases hshows : ∃ cs, Shows bytes cs
      · obtain ⟨cs, hshows⟩ := hshows
        by_cases hlong : HasLongInteger cs
        · exact ⟨.longInteger, bytes, rfl, cs, hshows, hlong⟩
        by_cases hjson : ∃ v, IsJson cs v
        · obtain ⟨v, hjson⟩ := hjson
          cases hmap : v.isMap with
          | false => exact ⟨.notAnObject, bytes, rfl, cs, v, hshows, hjson, hmap⟩
          | true =>
              refine ⟨.usable, fun bytes' hbytes => ?_⟩
              exact Option.some.inj hbytes ▸ ⟨cs, v, hshows, hjson, hmap⟩
        · exact ⟨.malformed, bytes, rfl, cs, hshows, not_exists.1 hjson, hlong⟩
      · exact ⟨.notText, bytes, rfl, not_exists.1 hshows⟩

/-- What a run has found, as told by what it comes to. -/
def Found.told : Except Fault Settings → Found
  | .error (.refused .notUtf8) => .notText
  | .error (.refused _) => .longInteger
  | .error (.failed ⟨.invalidProjectFile _ (.malformed _), _⟩) => .malformed
  | .error (.failed ⟨.invalidProjectFile _ .notAnObject, _⟩) => .notAnObject
  | _ => .usable

theorem ComesTo.told {found : Found} (h : ComesTo path result found) :
    Found.told result = found := by
  cases found with
  | notText => rw [show result = _ from h, Found.told]
  | longInteger =>
      rw [show result = _ from h, Found.told]
      nofun
  | malformed =>
      obtain ⟨defect, rfl⟩ := h
      rfl
  | notAnObject => rw [show result = _ from h, Fault.of, Found.told]
  | usable =>
      obtain ⟨s, rfl⟩ | ⟨issues, rfl⟩ := h <;> rfl

/-- A run comes to what it finds, and to nothing else. -/
theorem comesTo_iff_finds (path : String) (project : Option (List UInt8))
    (environment : List (String × String)) (flags : Entries) (found : Found) :
    ComesTo path (resolve path project environment flags) found ↔ Finds project found := by
  refine ⟨fun h => ?_, fun h => h.comesTo path environment flags⟩
  obtain ⟨found', hfinds⟩ := exists_finds project
  have hsame : found' = found := (hfinds.comesTo path environment flags).told.symm.trans h.told
  exact hsame ▸ hfinds

theorem ComesTo.isReported_iff {found : Found} (h : ComesTo path result found) :
    IsReported path result ↔ found ≠ .notText ∧ found ≠ .longInteger := by
  cases found with
  | notText =>
      rw [show result = _ from h]
      simp [IsReported]
  | longInteger =>
      rw [show result = _ from h]
      simp [IsReported]
  | malformed =>
      obtain ⟨defect, rfl⟩ := h
      simp [IsReported]
  | notAnObject =>
      rw [show result = _ from h]
      simp [IsReported]
  | usable =>
      obtain ⟨s, rfl⟩ | ⟨issues, rfl⟩ := h <;> simp [IsReported]

/-- How a run answers its project file. -/
structure Answers (path : String) (project : Option (List UInt8))
    (environment : List (String × String)) (flags : Entries) : Prop where
  /-- What is in the file alone decides what the run comes to. -/
  comesTo : ∀ found, ComesTo path (resolve path project environment flags) found ↔
    Finds project found
  /-- There are settings or a report exactly if the bytes are text without an integer that is too
  long for the reader. -/
  isReported : IsReported path (resolve path project environment flags) ↔
    ∀ bytes ∈ project, ∃ cs, Shows bytes cs ∧ ¬ HasLongInteger cs

/-- A run reports what it cannot use, except for bytes that are no text and integers with too many
digits. -/
theorem answers (path : String) (project : Option (List UInt8))
    (environment : List (String × String)) (flags : Entries) :
    Answers path project environment flags := by
  have hcomesTo := comesTo_iff_finds path project environment flags
  have hreported : IsReported path (resolve path project environment flags) ↔
      ¬ Finds project .notText ∧ ¬ Finds project .longInteger := by
    obtain ⟨found, hfinds⟩ := exists_finds project
    have hfound := hfinds.comesTo path environment flags
    have hne (other : Found) : found ≠ other ↔ ¬ Finds project other := by
      rw [← hcomesTo, not_iff_not]
      exact ⟨fun h => h ▸ hfound, fun h => hfound.told.symm.trans h.told⟩
    rw [hfound.isReported_iff, hne, hne]
  refine ⟨hcomesTo, hreported.trans ⟨fun ⟨htext, hshort⟩ bytes hbytes => ?_, fun h => ⟨?_, ?_⟩⟩⟩
  · by_contra hnone
    refine htext ⟨bytes, hbytes, fun cs hshows => hnone ⟨cs, hshows, fun hlong => ?_⟩⟩
    exact hshort ⟨bytes, hbytes, cs, hshows, hlong⟩
  · rintro ⟨bytes, hbytes, hnone⟩
    obtain ⟨cs, hshows, -⟩ := h bytes hbytes
    exact hnone cs hshows
  · rintro ⟨bytes, hbytes, cs, hshows, hlong⟩
    obtain ⟨cs', hshows', hshort⟩ := h bytes hbytes
    exact hshort (hshows.unique hshows' ▸ hlong)

/-- A project file of a single byte that begins no character is not reported. -/
theorem not_isReported_loneByte :
    ¬ IsReported "phpclientgen.json" (resolve "phpclientgen.json" (some [0xff]) [] []) := by
  have hresult : resolve "phpclientgen.json" (some [0xff]) [] [] = .error (.refused .notUtf8) := by
    decide +kernel
  rw [hresult]
  simp [IsReported]

end OpenApiClient.Settings
