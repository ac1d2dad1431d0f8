import OpenApiClient.Document
import OpenApiClient.Proofs.Contents
import OpenApiClient.Proofs.Reading

/-!
# How texts are rejected as documents

A text is JSON, or JSON up to an integer with too many digits, or else it is left to the reader of
YAML.  Whatever is no mapping is reported, and so is what neither reader understands.  Two kinds of
texts are not reported but refused: those with such an integer, and those in which the reader of
YAML meets something that it refuses, for instance a day that no calendar shows.
-/

namespace OpenApiClient.Document

open Json

/-- A mapping, or a report of what is wrong with the text. -/
def IsReported : Except Fault Value → Prop
  | .ok v => v.isMap = true
  | .error (.failed ⟨.malformedDocument _, none⟩) => True
  | .error (.failed ⟨.notAnObject _, none⟩) => True
  | .error _ => False

instance : DecidablePred IsReported := fun result =>
  match result with
  | .ok v => inferInstanceAs (Decidable (v.isMap = true))
  | .error fault => by
    unfold IsReported
    split <;> infer_instance

/-- What becomes of a value that is to be a root: it is the root if it is a mapping, and is reported
otherwise. -/
inductive Becomes (v : Value) : Except Fault Value → Prop
  | root : v.isMap = true → Becomes v (.ok v)
  | notAnObject (kind : String) : v.isMap = false → Becomes v (.error (.of (.notAnObject kind)))

/-- What becomes of a text that is left to the reader of YAML. -/
inductive IsReadAsYaml (text : String) : Except Fault Value → Prop
  | value {v : Value} {result : Except Fault Value} : Yaml.read text = .ok v → Becomes v result →
      IsReadAsYaml text result
  | malformed (defect : Json.Defect) : Yaml.read text = .error .malformed →
      IsReadAsYaml text (.error (.of (.malformedDocument defect)))
  | refused {r : Refusal} : Yaml.Refuses text r → IsReadAsYaml text (.error (.refused r))

/-- How a text is understood. -/
structure IsUnderstood (text : String) : Prop where
  /-- The value of JSON is the one that counts. -/
  json : ∀ v, IsJson text.toList v → ∃ w, w.bare = v ∧ Becomes w (parse text).2
  /-- YAML is tried exactly if the text is no JSON, not even up to an integer that is too long. -/
  tried : (parse text).1 ≠ [] ↔ (∀ v, ¬ IsJson text.toList v) ∧ ¬ HasLongInteger text.toList
  /-- Where YAML is tried, its value counts. -/
  yaml : (parse text).1 ≠ [] → IsReadAsYaml text (parse text).2
  /-- There is a mapping or a report exactly if no reader refuses the text. -/
  isReported : IsReported (parse text).2 ↔ ¬ HasLongInteger text.toList ∧
    ((∃ v, IsJson text.toList v) ∨ ∀ r, ¬ Yaml.Refuses text r)

variable {text : String} {v : Value} {result : Except Fault Value}

theorem becomes_requireMap (v : Value) : Becomes v (requireMap v) := by
  unfold requireMap
  split
  · exact .root rfl
  · exact .notAnObject _ rfl
  · next hmap _ =>
      refine .notAnObject _ ?_
      cases v with
      | map o es => exact absurd rfl (hmap o es)
      | _ => rfl

theorem Becomes.isReported (h : Becomes v result) : IsReported result := by
  cases h with
  | root hmap => exact hmap
  | notAnObject kind => trivial

/-- What is left to the reader of YAML is reported unless that refuses it. -/
theorem IsReadAsYaml.isReported_iff (h : IsReadAsYaml text result) :
    IsReported result ↔ ∀ r, ¬ Yaml.Refuses text r := by
  have hreported {stop : Except Yaml.Stop Value} (hread : Yaml.read text = stop)
      (hstop : ∀ r, stop ≠ .error (.refused r)) (r : Refusal) : ¬ Yaml.Refuses text r := fun hr =>
    hstop r (hread.symm.trans (Yaml.read_eq_refused_iff.2 hr))
  cases h with
  | value hread hbecomes => exact iff_of_true hbecomes.isReported (hreported hread nofun)
  | malformed defect hread => exact iff_of_true trivial (hreported hread nofun)
  | @refused r hr => exact iff_of_false id fun h => h r hr

theorem parse_of_malformed {defect : Json.Defect} (h : read text = .error (.malformed defect)) :
    (parse text).1 ≠ [] ∧ IsReadAsYaml text (parse text).2 := by
  rw [parse, h]
  refine ⟨List.cons_ne_nil _ _, ?_⟩
  dsimp only
  split
  · next hread => exact .value hread (becomes_requireMap _)
  · next hread => exact .malformed defect hread
  · next hread => exact .refused (Yaml.read_eq_refused_iff.1 hread)

theorem parse_of_tooManyDigits (h : read text = .error .tooManyDigits) :
    parse text = ([], .error (.refused .notANumber)) := by
  rw [parse, h]

/-- Every text is JSON, JSON up to an integer that is too long, or left to the reader of YAML. -/
theorem isUnderstood (text : String) : IsUnderstood text := by
  cases hread : read text with
  | ok w =>
      have hjson : IsJson text.toList w.bare := exists_read_iff.1 ⟨w, hread, rfl⟩
      have hparse := parse_of_json hread
      have hshort : ¬ HasLongInteger text.toList := fun h => by
        rw [read_eq_tooManyDigits_iff.2 h] at hread
        cases hread
      have hbecomes : Becomes w (parse text).2 := hparse ▸ becomes_requireMap w
      have hsilent : ¬ (parse text).1 ≠ [] := by simp [hparse]
      refine ⟨fun v hv => ⟨w, ?_, hbecomes⟩, iff_of_false hsilent fun h => h.1 _ hjson,
        fun h => absurd h hsilent, iff_of_true hbecomes.isReported ⟨hshort, .inl ⟨_, hjson⟩⟩⟩
      obtain ⟨w', hread', rfl⟩ := exists_read_iff.2 hv
      rw [Except.ok.inj (hread.symm.trans hread')]
  | error stop =>
      have hnot (v : Value) : ¬ IsJson text.toList v := fun hv => by
        obtain ⟨w, hw, -⟩ := exists_read_iff.2 hv
        cases hread.symm.trans hw
      cases stop with
      | tooManyDigits =>
          have hlong := read_eq_tooManyDigits_iff.1 hread
          have hparse := parse_of_tooManyDigits hread
          have hsilent : ¬ (parse text).1 ≠ [] := by simp [hparse]
          refine ⟨fun v hv => absurd hv (hnot v), iff_of_false hsilent fun h => h.2 hlong,
            fun h => absurd h hsilent, iff_of_false ?_ fun h => h.1 hlong⟩
          rw [hparse]
          exact id
      | malformed defect =>
          have hshort := (exists_malformed_iff.1 ⟨defect, hread⟩).2
          obtain ⟨htried, hyaml⟩ := parse_of_malformed hread
          refine ⟨fun v hv => absurd hv (hnot v), iff_of_true htried ⟨hnot, hshort⟩, fun _ => hyaml,
            hyaml.isReported_iff.trans ⟨fun h => ⟨hshort, .inr h⟩, fun h r => ?_⟩⟩
          exact h.2.resolve_left (fun ⟨v, hv⟩ => hnot v hv) r

/-- A version that looks like a day but is none is not reported. -/
theorem not_isReported_thirteenthMonth :
    ¬ IsReported (parse "openapi: 3.0.0\ninfo:\n  version: 2024-13-01\n").2 := by
  decide +kernel

end OpenApiClient.Document
