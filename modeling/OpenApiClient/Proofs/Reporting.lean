import OpenApiClient.Proofs.Assembly
import OpenApiClient.Proofs.RoundTrip
import OpenApiClient.Proofs.Running

/-!
# What standard output holds

Only the last step of a task writes to standard output.  In JSON format that is the text of one
value, which is read back as it was; an inspection that has no method to show writes nothing there
in any format.  How many diagnostics are shown makes no difference to standard output.
-/

namespace OpenApiClient

open Walk

/-- The text is read as the value, but for origins, and nothing else stands in it. -/
def Json.Means (text : String) (v : Value) : Prop := ∃ w, Json.read text = .ok w ∧ Value.Alike v w

theorem Json.exists_means {v : Value} (h : Json.Plain v) :
    ∃ text, Json.write v = .ok text ∧ Json.Means (text ++ "\n") v := by
  obtain ⟨text, w, hwrite, hread, halike⟩ := Json.exists_write h (Json.allSpace_newLine 0)
  exact ⟨text, hwrite, w, hread, halike⟩

theorem Json.not_means_empty (v : Value) : ¬ Json.Means "" v := by
  rintro ⟨w, hread, -⟩
  cases hread

namespace Console

/-- What a summary looks like on standard output. -/
def summaryText (f : Format) (v : Value) : Except Fault String :=
  match f with
  | .json => (Json.write v).map (· ++ "\n")
  | .plain | .rich => .ok ""

/-- What a table looks like on standard output. -/
def tableText (f : Format) (headers : List String) (rows : List (List String)) :
    Except Fault String :=
  match f with
  | .json => (Json.write (.seq (rows.map (record headers)))).map (· ++ "\n")
  | .plain | .rich => .ok (Text.join "\n" ((headers :: rows).map (Text.join "\t")) ++ "\n")

theorem map_out_summarize (c : Console) (v : Value) (message : String) :
    (c.summarize v message).map (·.out) = summaryText c.format v := by
  unfold summarize summaryText printJson
  cases c.format with
  | json => cases Json.write v <;> rfl
  | plain | rich => exact congrArg Except.ok (c.say_out _ _)

theorem map_zip_sublist (headers row : List String) :
    ((headers.zip row).map (·.1)).Sublist headers := by
  induction headers generalizing row with
  | nil => exact List.Sublist.refl []
  | cons h headers ih =>
      cases row with
      | nil => exact List.nil_sublist _
      | cons cell row => exact (ih row).cons_cons h

/-- Fields with different names are put one after the other. -/
theorem foldl_insert_eq {fields : List (String × String)} {es : Value.Entries}
    (hdistinct : (fields.map (·.1)).Nodup) (hfresh : Value.Fresh es (fields.map (·.1))) :
    fields.foldl (fun es (h, cell) => Value.insert (.str h) (.str cell) es) es =
      es ++ fields.map fun f => (Scalar.str f.1, Value.str f.2) := by
  induction fields generalizing es with
  | nil => exact (List.append_nil es).symm
  | cons field fields ih =>
      obtain ⟨h, cell⟩ := field
      obtain ⟨hnew, hdistinct⟩ := List.nodup_cons.1 hdistinct
      have hinsert : Value.insert (.str h) (.str cell) es =
          es ++ [(Scalar.str h, Value.str cell)] :=
        hfresh.insert_eq (.str cell)
      rw [List.foldl_cons]
      dsimp only
      rw [hinsert, ih hdistinct (hfresh.concat hnew _), List.append_assoc]
      rfl

/-- The record of a row under headers, none of which stands twice, has a field for each cell. -/
theorem record_eq {headers : List String} (hdistinct : headers.Nodup) (row : List String) :
    record headers row = .map 0 ((headers.zip row).map fun f => (.str f.1, .str f.2)) := by
  have hfields := hdistinct.sublist (map_zip_sublist headers row)
  rw [record, foldl_insert_eq hfields (Value.fresh_nil _), List.nil_append]

theorem map_out_printTable (c : Console) (headers : List String) (rows : List (List String)) :
    (c.printTable headers rows).map (·.out) = tableText c.format headers rows := by
  unfold printTable tableText printJson
  cases c.format with
  | json => cases Json.write (.seq (rows.map (record headers))) <;> rfl
  | plain | rich => rfl

end Console

namespace CommandLine

variable {m : Machine} {c : Console} {t : Task} {d d' : Disk} {s : Settings} {l : Library}
  {written : List Path} {words words' : List String} {preferences : Preferences}

/-- A method as an object: the cells of its row under their headers. -/
def methodObject (method : ClassKind × String × Route) : Value :=
  .map 0 ((methodHeaders.zip (methodRow method.1 method.2.1 method.2.2)).map fun f =>
    (.str f.1, .str f.2))

theorem methodRows_eq (l : Library) :
    methodRows l = l.methods.map fun method => methodRow method.1 method.2.1 method.2.2 := by
  simp [methodRows, Library.methods, List.map_flatMap, Function.comp_def]

theorem nodup_methodHeaders : methodHeaders.Nodup := by decide

theorem plain_methodObject (method : ClassKind × String × Route) :
    Json.Plain (methodObject method) := by
  have hdistinct : (((methodHeaders.zip (methodRow method.1 method.2.1 method.2.2)).map fun f =>
      (f.1, Value.str f.2)).map (·.1)).Nodup := by
    rw [List.map_map]
    exact nodup_methodHeaders.sublist (Console.map_zip_sublist _ _)
  have hplain := Json.Plain.mapping 0 (fun f hf => by
    obtain ⟨g, -, rfl⟩ := List.mem_map.1 hf
    exact Json.Plain.text g.2) hdistinct
  rwa [List.map_map] at hplain

theorem plain_texts (ss : List String) : Json.Plain (.seq (ss.map .str)) := by
  refine .list fun v hv => ?_
  obtain ⟨s, -, rfl⟩ := List.mem_map.1 hv
  exact .text s

theorem plain_summaryOf (s : Settings) (l : Library) (written : List Path) :
    Json.Plain (summaryOf s l written) := by
  let texts (ss : List String) : Value := .seq (ss.map .str)
  let fields : List (String × Value) :=
    [("output", .str s.output), ("namespace", .str l.client.space),
    ("client", .str l.client.name), ("managers", texts (l.managers.map (·.name))),
    ("resources", texts (l.resources.map (·.name))), ("files", texts (written.map (·.text))),
    ("warnings", texts l.warnings)]
  have hplain : ∀ f ∈ fields, Json.Plain f.2 := by
    simp only [fields, List.forall_mem_cons]
    exact ⟨.text _, .text _, .text _, plain_texts _, plain_texts _, plain_texts _, plain_texts _,
      by simp⟩
  have hdistinct : ["output", "namespace", "client", "managers", "resources", "files",
      "warnings"].Nodup := by decide
  exact .mapping 0 hplain hdistinct

/-- The rows of a library in JSON format are a list of its methods. -/
theorem map_record_methodRows (l : Library) :
    (methodRows l).map (Console.record methodHeaders) = l.methods.map methodObject := by
  rw [methodRows_eq, List.map_map]
  exact List.map_congr_left fun method _ => Console.record_eq nodup_methodHeaders _

/-- What a task that has ended well has left on standard output in JSON format: an inspection the
list of all methods, unless there is none, and a generation what it has written. -/
def Reports (m : Machine) (s : Settings) (l : Library) (out : String) : Task → Prop
  | .inspect .. => (Json.Means out (.seq (l.methods.map methodObject)) ↔ l.methods ≠ []) ∧
      (l.methods = [] → out = "")
  | .generate .. => ∃ written d, Yields (m.writing s l) { m.disk with log := #[] } written d ∧
      Json.Means out (summaryOf s l written)

theorem exists_means_summaryText (s : Settings) (l : Library) (written : List Path) :
    ∃ out, Console.summaryText .json (summaryOf s l written) = .ok out ∧
      Json.Means out (summaryOf s l written) := by
  obtain ⟨text, hwrite, hmeans⟩ := Json.exists_means (plain_summaryOf s l written)
  exact ⟨text ++ "\n", by rw [Console.summaryText, hwrite]; rfl, hmeans⟩

theorem exists_means_tableText (l : Library) :
    ∃ out, Console.tableText .json methodHeaders (methodRows l) = .ok out ∧
      Json.Means out (.seq (l.methods.map methodObject)) := by
  have hplain : Json.Plain (.seq (l.methods.map methodObject)) := by
    refine .list fun v hv => ?_
    obtain ⟨method, -, rfl⟩ := List.mem_map.1 hv
    exact plain_methodObject method
  obtain ⟨text, hwrite, hmeans⟩ := Json.exists_means hplain
  exact ⟨text ++ "\n", by rw [Console.tableText, map_record_methodRows, hwrite]; rfl, hmeans⟩

/-- How a task ends is the same for all consoles of a format. -/
theorem exists_ends_perform (m : Machine) (f : Format) (t : Task) :
    ∃ x d out, (∀ c : Console, c.format = f → Ends (perform m c t) m.disk x d out) ∧
      (f = .json → exitCode x = 0 → ∃ s l, m.compiled t = .ok (s, l) ∧ Reports m s l out t) := by
  cases hcompiled : m.compiled t with
  | error fault =>
      exact ⟨.error fault, _, _, fun c _ => ends_perform_of_not_compiled hcompiled,
        fun _ hzero => absurd hzero fault.exitCode_ne_zero⟩
  | ok made =>
      obtain ⟨s, l⟩ := made
      have hempty : (methodRows l).isEmpty = l.methods.isEmpty := by simp [methodRows_eq]
      cases t with
      | generate =>
          rcases hwrite : outcome (m.writing s l) { m.disk with log := #[] }
            with ⟨fault | written, d⟩
          · exact ⟨.error fault, _, _, fun c _ => ends_generate_of_not_written hcompiled hwrite,
              fun _ hzero => absurd hzero fault.exitCode_ne_zero⟩
          · refine ⟨_, _, _, fun c hc => ends_generate_of_written hcompiled hwrite
              ((c.map_out_summarize _ _).trans (congrArg (Console.summaryText · _) hc)), ?_⟩
            rintro rfl -
            obtain ⟨out, htext, hmeans⟩ := exists_means_summaryText s l written
            rw [htext]
            exact ⟨s, l, rfl, written, d, hwrite, hmeans⟩
      | inspect =>
          cases hnone : (methodRows l).isEmpty with
          | true =>
              have hmethods : l.methods = [] := List.isEmpty_iff.1 (hempty.symm.trans hnone)
              refine ⟨.ok (), _, "", fun c _ => ends_inspect_of_none hcompiled hnone,
                fun _ _ => ⟨s, l, rfl, ⟨fun h => absurd h (Json.not_means_empty _), ?_⟩,
                  fun _ => rfl⟩⟩
              exact fun h => absurd hmethods h
          | false =>
              have hmethods : l.methods ≠ [] := by
                rw [← List.isEmpty_eq_false_iff, ← hempty, hnone]
              refine ⟨_, _, _, fun c hc => ends_inspect_of_compiled hcompiled
                ((c.map_out_printTable _ _).trans (congrArg (Console.tableText · _ _) hc)) hnone,
                ?_⟩
              rintro rfl -
              obtain ⟨out, htext, hmeans⟩ := exists_means_tableText l
              rw [htext]
              exact ⟨s, l, rfl, ⟨fun _ => hmethods, fun _ => hmeans⟩, fun h => absurd h hmethods⟩

/-- Standard output of a run in JSON format that ended well, and of every run, however much is told.
-/
theorem json_out (m : Machine) {words : List String} {preferences : Preferences} {t : Task}
    (hwords : Request.ofWords? words = some (.run preferences t)) :
    (preferences.json = true → (run m words).code = 0 → ∃ s l, m.compiled t = .ok (s, l) ∧
      Reports m s l (run m words).streams.out t) ∧
    ∀ words' quiet verbose,
      Request.ofWords? words' = some (.run { preferences with quiet, verbose } t) →
      (run m words').streams.out = (run m words).streams.out ∧
        (run m words').code = (run m words).code := by
  obtain ⟨x, d, out, hends, hreports⟩ := exists_ends_perform m (m.console preferences).format t
  obtain ⟨hcode, hout⟩ := run_of_ends hwords (hends _ rfl)
  constructor
  · intro hjson hzero
    have hformat : (m.console preferences).format = .json := by
      unfold Machine.console
      rw [hjson]
      rfl
    rw [hout]
    exact hreports hformat (hcode.symm.trans hzero)
  · intro words' quiet verbose hwords'
    obtain ⟨hcode', hout'⟩ := run_of_ends hwords' (hends _ rfl)
    exact ⟨hout'.trans hout.symm, hcode'.trans hcode.symm⟩

/-- A machine with a document on standard input. -/
def machineOf (input : String) : Machine where
  disk := {}
  input := input
  home := "/home"
  nonce := "n"
  time := "20260101-000000"

/-- A document whose one operation is a method of a manager. -/
def taggedText : String :=
  "\x7b\"openapi\":\"3.\",\"paths\":\x7b\"/a\":\x7b\"get\":\x7b\"tags\":[\"Manager:A\"]\x7d\x7d\x7d\x7d"

/-- A document without operations. -/
def untaggedText : String := "\x7b\"openapi\":\"3.\"\x7d"

theorem json_out_tagged :
    (∃ s l, (machineOf taggedText).compiled (.inspect "-" none) = .ok (s, l) ∧
      Reports (machineOf taggedText) s l
        (run (machineOf taggedText) ["--json", "inspect", "-"]).streams.out (.inspect "-" none)) ∧
    (run (machineOf taggedText) ["--json", "-q", "-v", "inspect", "-"]).streams.out =
      (run (machineOf taggedText) ["--json", "inspect", "-"]).streams.out := by
  have hwords : Request.ofWords? ["--json", "inspect", "-"] =
      some (.run { json := true } (.inspect "-" none)) := by decide +kernel
  have hwords' : Request.ofWords? ["--json", "-q", "-v", "inspect", "-"] =
      some (.run { json := true, quiet := true, verbose := true } (.inspect "-" none)) := by
    decide +kernel
  have hcode : (run (machineOf taggedText) ["--json", "inspect", "-"]).code = 0 := by decide +kernel
  obtain ⟨hreports, hsame⟩ := json_out (machineOf taggedText) hwords
  exact ⟨hreports rfl hcode, (hsame _ true true hwords').1⟩

/-- An inspection without methods ends well, but nothing is read off what it has written. -/
theorem not_means_untagged :
    (run (machineOf untaggedText) ["--json", "inspect", "-"]).code = 0 ∧
      ∀ v, ¬ Json.Means
        (run (machineOf untaggedText) ["--json", "inspect", "-"]).streams.out v := by
  have hcode : (run (machineOf untaggedText) ["--json", "inspect", "-"]).code = 0 := by
    decide +kernel
  have hout : (run (machineOf untaggedText) ["--json", "inspect", "-"]).streams.out = "" := by
    decide +kernel
  exact ⟨hcode, hout ▸ Json.not_means_empty⟩

end CommandLine

end OpenApiClient
