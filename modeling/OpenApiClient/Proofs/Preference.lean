import OpenApiClient.Proofs.Pointers
import OpenApiClient.CommandLine.Run

/-!
# Which source a setting is taken from

A setting is what the strongest of its sources says, or its default.  Values that no source says are
never at fault, so settings are found exactly if each value that was taken from a source can be
taken for its setting, and if the project file names settings only.
-/

namespace OpenApiClient

namespace Value

variable {s t name : String} {v : Value} {es : Entries}

theorem find?_insert (s t : String) (v : Value) (es : Entries) :
    find? (.str t) (insert (.str s) v es) = if s = t then some v else find? (.str t) es := by
  induction es with
  | nil => simp [insert, find?]
  | cons e es ih =>
      obtain ⟨k, w⟩ := e
      rw [insert]
      by_cases hs : k.same (.str s) = true
      · obtain rfl := Scalar.eq_of_same_str hs
        by_cases hst : s = t <;> simp [find?, hst]
      · rw [if_neg hs, find?, find?, ih]
        split
        · next ht =>
            obtain rfl := Scalar.eq_of_same_str ht
            rw [if_neg]
            rintro rfl
            exact hs ht
        · rfl

/-- What is read off other entries than that under a name does not change with it. -/
theorem filterMap_insert {β : Type} {f : Scalar × Value → Option β} (hf : ∀ w, f (.str s, w) = none)
    (v : Value) (es : Entries) : (insert (.str s) v es).filterMap f = es.filterMap f := by
  induction es with
  | nil => simp [insert, hf]
  | cons e es ih =>
      obtain ⟨k, w⟩ := e
      rw [insert]
      by_cases hs : k.same (.str s) = true
      · obtain rfl := Scalar.eq_of_same_str hs
        simp [hf]
      · rw [if_neg hs, List.filterMap_cons, List.filterMap_cons, ih]

/-- Entries under texts, each of which stands once. -/
structure HasNames (es : Entries) : Prop where
  isName : ∀ e ∈ es, ∃ s, e.1 = .str s
  nodup : (es.map (·.1)).Nodup

theorem HasNames.of_cons {e : Scalar × Value} (h : HasNames (e :: es)) : HasNames es :=
  ⟨fun e' he' => h.isName e' (List.mem_cons_of_mem e he'), (List.nodup_cons.1 h.nodup).2⟩

theorem HasNames.exists_of_cons {e : Scalar × Value} (h : HasNames (e :: es)) :
    ∃ s v, e = (.str s, v) ∧ find? (.str s) es = none := by
  obtain ⟨s, hs⟩ := h.isName e List.mem_cons_self
  refine ⟨s, e.2, Prod.ext hs rfl, ?_⟩
  have hnot : e.1 ∉ es.map (·.1) := (List.nodup_cons.1 h.nodup).1
  rw [hs] at hnot
  clear h hs
  induction es with
  | nil => rfl
  | cons e' es ih =>
      rw [List.map_cons, List.mem_cons, not_or] at hnot
      rw [find?, if_neg fun hsame => hnot.1 (Scalar.eq_of_same_str hsame).symm]
      exact ih hnot.2

theorem HasNames.filter (h : HasNames es) (p : Scalar × Value → Bool) : HasNames (es.filter p) :=
  ⟨fun e he => h.isName e (List.mem_of_mem_filter he),
    h.nodup.sublist (List.filter_sublist.map Prod.fst)⟩

theorem find?_filter (h : HasNames es) (p : Value → Bool) (name : String) :
    find? (.str name) (es.filter fun e => p e.2) = (find? (.str name) es).filter p := by
  induction es with
  | nil => rfl
  | cons e es ih =>
      obtain ⟨s, v, rfl, hnone⟩ := h.exists_of_cons
      rw [List.filter_cons, find?, Scalar.same_str]
      by_cases hs : s = name
      · subst hs
        cases hp : p v
        · simp [ih h.of_cons, hnone, hp, Option.filter]
        · simp [find?, hp, Option.filter]
      · have hs' : (s == name) = false := by simpa using hs
        cases hp : p v <;> simp [find?, hs, ih h.of_cons]

end Value

namespace Settings

open Value

variable {lower upper es flags : Entries} {environment : List (String × String)}

/-- Under a name stands what the upper layer has there, else what the lower one has. -/
theorem find?_overlay (h : HasNames upper) (lower : Entries) (name : String) :
    find? (.str name) (overlay lower upper) =
      (find? (.str name) upper).or (find? (.str name) lower) := by
  induction upper generalizing lower with
  | nil => rfl
  | cons e upper ih =>
      obtain ⟨s, v, rfl, hnone⟩ := h.exists_of_cons
      have hstep : overlay lower ((.str s, v) :: upper) = overlay (insert (.str s) v lower) upper :=
        rfl
      rw [hstep, ih h.of_cons, find?_insert, find?, Scalar.same_str]
      by_cases hs : s = name
      · subst hs
        simp [hnone]
      · simp [hs]

theorem filterMap_overlay {β : Type} {f : Scalar × Value → Option β}
    (h : ∀ e ∈ upper, ∃ s, e.1 = .str s ∧ ∀ w, f (.str s, w) = none) (lower : Entries) :
    (overlay lower upper).filterMap f = lower.filterMap f := by
  induction upper generalizing lower with
  | nil => rfl
  | cons e upper ih =>
      obtain ⟨s, hs, hf⟩ := h e List.mem_cons_self
      have hstep : overlay lower (e :: upper) = overlay (insert (.str s) e.2 lower) upper := by
        rw [← hs]
        rfl
      rw [hstep, ih fun e' he' => h e' (List.mem_cons_of_mem e he'), filterMap_insert hf]

/-- The settings, in the order in which they are checked. -/
inductive Field where
  | baseNamespace
  | output
  | clientName
  | generateTests
  | strictOperationIds
  | templatesDirectory
  deriving DecidableEq

namespace Field

def all : List Field :=
  [.baseNamespace, .output, .clientName, .generateTests, .strictOperationIds, .templatesDirectory]

/-- What a setting is called in a project file. -/
def name : Field → String
  | .baseNamespace => "namespace"
  | .output => "output"
  | .clientName => "client_name"
  | .generateTests => "generate_tests"
  | .strictOperationIds => "strict_operation_ids"
  | .templatesDirectory => "templates_dir"

/-- The variable of the environment that holds a setting, if one does. -/
def environmentName : Field → Option String
  | .baseNamespace => some "PHPCLIENTGEN_NAMESPACE"
  | .output => some "PHPCLIENTGEN_OUTPUT"
  | .templatesDirectory => some "PHPCLIENTGEN_TEMPLATES"
  | .clientName | .generateTests | .strictOperationIds => none

/-- What a setting is where no source says anything. -/
def default : Field → Value
  | .baseNamespace => .str "Api"
  | .output => .str "./out"
  | .generateTests | .strictOperationIds => .bool false
  | .clientName | .templatesDirectory => .null

/-- The values that can be taken for a setting: what stands for a text for some, null or that for
others, and for switches what stands for true or false. -/
def Accepts (f : Field) (v : Value) : Prop :=
  match f with
  | .baseNamespace | .output => ∃ s, Fields.reading v = .ok s
  | .clientName | .templatesDirectory => v = .null ∨ ∃ s, Fields.reading v = .ok s
  | .generateTests | .strictOperationIds => ∃ b, Fields.truth v = .ok b

/-- A text is what a value stands for, and none is what null stands for. -/
def HoldsText (v : Value) : Option String → Prop
  | none => v = .null
  | some s => Fields.reading v = .ok s

/-- The setting is what a value stands for. -/
def Holds (f : Field) (v : Value) (s : Settings) : Prop :=
  match f with
  | .baseNamespace => HoldsText v (some s.baseNamespace)
  | .output => HoldsText v (some s.output)
  | .clientName => HoldsText v s.clientName
  | .templatesDirectory => HoldsText v s.templatesDirectory
  | .generateTests => Fields.truth v = .ok s.generateTests
  | .strictOperationIds => Fields.truth v = .ok s.strictOperationIds

/-- What is wrong with a value that is taken for a setting. -/
def issue (f : Field) (v : Value) : Option Issue :=
  match f with
  | .baseNamespace | .output => Fields.text f.name v
  | .clientName | .templatesDirectory => Fields.optionalText f.name v
  | .generateTests | .strictOperationIds => Fields.boolean f.name v

/-- What the command line says, unless it is null. -/
def onCommandLine (flags : Entries) (f : Field) : Option Value :=
  (find? (.str f.name) flags).filter (!·.isNull)

/-- What the environment says, unless it is empty. -/
def inEnvironment (environment : List (String × String)) (f : Field) : Option Value :=
  ((f.environmentName.bind fun x => environment.lookup x).filter (!·.isEmpty)).map .str

/-- What the sources say that are stronger than the project file. -/
def above (flags : Entries) (environment : List (String × String)) (f : Field) : Option Value :=
  (f.onCommandLine flags).or (f.inEnvironment environment)

/-- What the strongest source says that says anything, given the entries of the project file. -/
def chosen (flags : Entries) (environment : List (String × String)) (es : Entries) (f : Field) :
    Option Value :=
  (f.above flags environment).or (find? (.str f.name) es)

/-- The value that is checked. -/
def validated (flags : Entries) (environment : List (String × String)) (es : Entries) (f : Field) :
    Value :=
  (f.chosen flags environment es).getD f.default

theorem mem_all (f : Field) : f ∈ all := by
  cases f <;> decide

theorem mem_fieldNames_iff {n : String} : n ∈ fieldNames ↔ ∃ f : Field, f.name = n := by
  have hnames : fieldNames = all.map Field.name := rfl
  rw [hnames, List.mem_map]
  exact ⟨fun ⟨f, _, hf⟩ => ⟨f, hf⟩, fun ⟨f, hf⟩ => ⟨f, f.mem_all, hf⟩⟩

theorem issue_eq_none_iff (f : Field) (v : Value) : f.issue v = none ↔ f.Accepts v := by
  have hboolean (name : String) : Fields.boolean name v = none ↔ ∃ b, Fields.truth v = .ok b := by
    unfold Fields.boolean
    cases Fields.truth v <;> simp
  cases f with
  | baseNamespace => exact Fields.text_eq_none_iff
  | output => exact Fields.text_eq_none_iff
  | clientName => exact Fields.optionalText_eq_none_iff
  | templatesDirectory => exact Fields.optionalText_eq_none_iff
  | generateTests => exact hboolean _
  | strictOperationIds => exact hboolean _

/-- Every default can be taken for its setting. -/
theorem issue_default (f : Field) : f.issue f.default = none := by
  cases f <;> decide

theorem issue_validated (f : Field) :
    f.issue (f.validated flags environment es) = (f.chosen flags environment es).bind f.issue := by
  unfold validated
  cases f.chosen flags environment es with
  | none => exact f.issue_default
  | some v => rfl

end Field

/-- The names in the project file that are no settings. -/
def unknown (es : Entries) : List Issue :=
  es.filterMap fun (key, _) =>
    if fieldNames.contains key.text then none
    else some { field := key.text, kind := .unknownField }

theorem unknown_eq_nil_iff : unknown es = [] ↔ ∀ e ∈ es, e.1.text ∈ fieldNames := by
  simp [unknown, List.filterMap_eq_nil_iff]

/-- The settings that some values stand for. -/
def ofValues (v : Field → Value) : Settings where
  baseNamespace := Fields.textOf (v .baseNamespace)
  output := Fields.textOf (v .output)
  clientName := Fields.textOf? (v .clientName)
  generateTests := (Fields.truth (v .generateTests)).toOption.getD false
  strictOperationIds := (Fields.truth (v .strictOperationIds)).toOption.getD false
  templatesDirectory := Fields.textOf? (v .templatesDirectory)

theorem holds_ofValues {v : Field → Value} (h : ∀ f : Field, f.Accepts (v f)) (f : Field) :
    f.Holds (v f) (ofValues v) := by
  have hoptional {w : Value} (hw : w = .null ∨ ∃ s, Fields.reading w = .ok s) :
      Field.HoldsText w (Fields.textOf? w) := by
    rcases hw with rfl | ⟨s, hs⟩
    · rfl
    · rw [Fields.textOf?_of_reading hs]
      exact hs
  have hswitch {w : Value} (hw : ∃ b, Fields.truth w = .ok b) :
      Fields.truth w = .ok ((Fields.truth w).toOption.getD false) := by
    obtain ⟨b, hb⟩ := hw
    rw [hb]
    rfl
  have htext {w : Value} (hw : ∃ s, Fields.reading w = .ok s) :
      Field.HoldsText w (some (Fields.textOf w)) := by
    obtain ⟨s, hs⟩ := hw
    rw [Fields.textOf_of_reading hs]
    exact hs
  cases f with
  | baseNamespace => exact htext (h .baseNamespace)
  | output => exact htext (h .output)
  | clientName => exact hoptional (h .clientName)
  | templatesDirectory => exact hoptional (h .templatesDirectory)
  | generateTests => exact hswitch (h .generateTests)
  | strictOperationIds => exact hswitch (h .strictOperationIds)

/-- Settings are made of the values that stand under their names, and of the defaults. -/
theorem ofEntries_eq (es : Entries) :
    ofEntries es =
      Fields.fill .options
        (Field.all.map (fun f => f.issue ((find? (.str f.name) es).getD f.default)) ++
          (unknown es).map some)
        (ofValues fun f => (find? (.str f.name) es).getD f.default) := rfl

/-! ### The sources -/

/-- The entries of the project file, none if there is no such file. -/
def loaded (path : String) : Option (List UInt8) → Except Fault Entries
  | none => .ok []
  | some bytes => ofProjectFile path bytes

/-- What the command line says of settings: nothing twice. -/
structure AreFlags (flags : Entries) : Prop where
  hasNames : HasNames flags
  isField : ∀ e ∈ flags, ∃ f : Field, e.1 = .str f.name

/-- What a task names are settings. -/
theorem areFlags_flags (t : CommandLine.Task) : AreFlags t.flags := by
  have hisField (n : String) (hn : n ∈ fieldNames) (v : Value) :
      ∃ f : Field, ((Scalar.str n, v) : Scalar × Value).1 = .str f.name :=
    (Field.mem_fieldNames_iff.1 hn).imp fun _ hf => congrArg Scalar.str hf.symm
  cases t with
  | generate source output space clientName templates tests strict =>
      refine ⟨⟨?_, ?_⟩, ?_⟩
      · simp [CommandLine.Task.flags, CommandLine.textFlag, CommandLine.switchFlag]
      · simp [CommandLine.Task.flags, CommandLine.textFlag, CommandLine.switchFlag]
      · simp only [CommandLine.Task.flags, List.forall_mem_cons]
        exact ⟨hisField _ (by decide) _, hisField _ (by decide) _, hisField _ (by decide) _,
          hisField _ (by decide) _, hisField _ (by decide) _, hisField _ (by decide) _, by simp⟩
  | inspect source space =>
      refine ⟨⟨?_, ?_⟩, ?_⟩
      · simp [CommandLine.Task.flags, CommandLine.textFlag]
      · simp [CommandLine.Task.flags, CommandLine.textFlag]
      · simp only [CommandLine.Task.flags, List.forall_mem_cons]
        exact ⟨hisField _ (by decide) _, by simp⟩

/-- The values of a run before they are checked. -/
def layered (es : Entries) (environment : List (String × String)) (flags : Entries) : Entries :=
  overlay (overlay es (ofEnvironment environment)) (flags.filter fun e => !e.2.isNull)

theorem resolve_eq (path : String) (project : Option (List UInt8))
    (environment : List (String × String)) (flags : Entries) :
    resolve path project environment flags =
      loaded path project >>= fun es =>
        match ofEntries (layered es environment flags) with
        | .error (.invalid .options issues) => .error (.of (.invalidOptions issues))
        | result => result := by
  cases project <;> rfl

/-- Under the name of a column stands what its row comes to. -/
theorem find?_filterMap_rows {rows : List (String × String)} (hrows : (rows.map (·.2)).Nodup)
    (g : String → Option String) (n : String) :
    find? (.str n) (rows.filterMap fun r => (g r.1).map fun s => (.str r.2, .str s)) =
      (((rows.find? (·.2 == n)).bind fun r => g r.1).map Value.str) := by
  induction rows with
  | nil => rfl
  | cons r rows ih =>
      obtain ⟨hr, hrows⟩ := List.nodup_cons.1 hrows
      rw [List.filterMap_cons, List.find?_cons]
      by_cases hn : r.2 = n
      · subst hn
        have hnone : rows.find? (·.2 == r.2) = none := by
          simpa [List.find?_eq_none] using fun x y hxy hy => hr (List.mem_map.2 ⟨(x, y), hxy, hy⟩)
        cases hg : g r.1 with
        | none => simp [ih hrows, hnone, hg]
        | some s => simp [find?, hg]
      · have hn' : (r.2 == n) = false := by simpa using hn
        cases hg : g r.1 with
        | none => simp [ih hrows, hn']
        | some s => simp [find?, ih hrows, hn']

/-- The names of rows that are named apart are apart, whatever rows are left out. -/
theorem hasNames_filterMap_rows {rows : List (String × String)} (hrows : (rows.map (·.2)).Nodup)
    (g : String → Option String) :
    HasNames (rows.filterMap fun r => (g r.1).map fun s => (.str r.2, .str s)) := by
  constructor
  · intro e he
    obtain ⟨r, -, hr⟩ := List.mem_filterMap.1 he
    obtain ⟨s, -, rfl⟩ := Option.map_eq_some_iff.1 hr
    exact ⟨r.2, rfl⟩
  · induction rows with
    | nil => exact List.nodup_nil
    | cons r rows ih =>
        obtain ⟨hr, hrows⟩ := List.nodup_cons.1 hrows
        rw [List.filterMap_cons]
        cases hg : g r.1 with
        | none => exact ih hrows
        | some s =>
            refine List.nodup_cons.2 ⟨fun hmem => hr ?_, ih hrows⟩
            obtain ⟨e, he, hkey⟩ := List.mem_map.1 hmem
            obtain ⟨r', hr', hsome⟩ := List.mem_filterMap.1 he
            obtain ⟨s', -, rfl⟩ := Option.map_eq_some_iff.1 hsome
            exact List.mem_map.2 ⟨r', hr', Scalar.str.inj hkey⟩

theorem environmentNames_nodup : (environmentNames.map (·.2)).Nodup := by decide

theorem find?_ofEnvironment (environment : List (String × String)) (f : Field) :
    find? (.str f.name) (ofEnvironment environment) = f.inEnvironment environment := by
  have hname : f.environmentName = (environmentNames.find? (·.2 == f.name)).map (·.1) := by
    cases f <;> decide
  rw [Field.inEnvironment, hname]
  refine (find?_filterMap_rows environmentNames_nodup
    (fun x => (environment.lookup x).filter (!·.isEmpty)) f.name).trans ?_
  cases environmentNames.find? (·.2 == f.name) <;> rfl

theorem find?_layered (hflags : AreFlags flags) (es : Entries)
    (environment : List (String × String)) (f : Field) :
    find? (.str f.name) (layered es environment flags) = f.chosen flags environment es := by
  have hnames : HasNames (flags.filter fun e => !e.2.isNull) := hflags.hasNames.filter _
  have henvironment : HasNames (ofEnvironment environment) :=
    hasNames_filterMap_rows environmentNames_nodup
      fun x => (environment.lookup x).filter (!·.isEmpty)
  rw [layered, find?_overlay hnames, find?_overlay henvironment, find?_ofEnvironment,
    find?_filter hflags.hasNames (!·.isNull), ← Option.or_assoc]
  rfl

/-- Neither the environment nor the command line says anything but settings. -/
theorem unknown_layered (hflags : AreFlags flags) (es : Entries)
    (environment : List (String × String)) :
    unknown (layered es environment flags) = unknown es := by
  have hfield (f : Field) : fieldNames.contains f.name := by
    cases f <;> decide
  have hrow : ∀ r ∈ environmentNames, fieldNames.contains r.2 := by decide
  rw [unknown, layered, filterMap_overlay, filterMap_overlay, unknown]
  · intro e he
    obtain ⟨r, hr, hsome⟩ := List.mem_filterMap.1 he
    obtain ⟨s, -, rfl⟩ := Option.map_eq_some_iff.1 hsome
    exact ⟨r.2, rfl, fun w => if_pos (hrow r hr)⟩
  · intro e he
    obtain ⟨f, hf⟩ := hflags.isField e (List.mem_of_mem_filter he)
    exact ⟨f.name, hf, fun w => if_pos (hfield f)⟩

/-- What checking the values of a run comes to. -/
theorem ofEntries_layered (hflags : AreFlags flags) (es : Entries)
    (environment : List (String × String)) :
    ofEntries (layered es environment flags) =
      Fields.fill .options
        (Field.all.map (fun f => (f.chosen flags environment es).bind f.issue) ++
          (unknown es).map some)
        (ofValues (Field.validated flags environment es)) := by
  simp only [ofEntries_eq, find?_layered hflags, unknown_layered hflags, ← Field.issue_validated]
  rfl

/-- What is wrong with the values that are taken from a source, in the order of the settings, and
then with the names in the project file. -/
def issues (flags : Entries) (environment : List (String × String)) (es : Entries) : List Issue :=
  Field.all.filterMap (fun f => (f.chosen flags environment es).bind f.issue) ++ unknown es

theorem issues_eq_nil_iff :
    issues flags environment es = [] ↔
      (∀ f v, Field.chosen flags environment es f = some v → f.Accepts v) ∧
        ∀ e ∈ es, e.1.text ∈ fieldNames := by
  rw [issues, List.append_eq_nil_iff, unknown_eq_nil_iff, List.filterMap_eq_nil_iff]
  refine and_congr_left fun _ => ⟨fun h f v hv => ?_, fun h f _ => ?_⟩
  · rw [← Field.issue_eq_none_iff, ← h f f.mem_all, hv, Option.bind_some]
  · cases hv : f.chosen flags environment es with
    | none => rfl
    | some v => exact (f.issue_eq_none_iff v).2 (h f v hv)

/-- With the entries of the project file at hand, settings are found exactly if nothing is wrong. -/
theorem resolve_eq_of_loaded {path : String} {project : Option (List UInt8)}
    (hproject : loaded path project = .ok es) (environment : List (String × String))
    (hflags : AreFlags flags) :
    resolve path project environment flags =
      if issues flags environment es = [] then .ok (ofValues (Field.validated flags environment es))
      else .error (.of (.invalidOptions (issues flags environment es))) := by
  have hissues : (Field.all.map (fun f => (f.chosen flags environment es).bind f.issue) ++
      (unknown es).map some).filterMap id = issues flags environment es := by
    simp [issues, List.filterMap_map]
  have hchecked : ofEntries (layered es environment flags) =
      if issues flags environment es = [] then .ok (ofValues (Field.validated flags environment es))
      else .error (.invalid .options (issues flags environment es)) := by
    rw [ofEntries_layered hflags, Fields.fill, hissues]
    split
    · next hnil => rw [if_pos hnil]
    · next hne => rw [if_neg hne]
  rw [resolve_eq, hproject]
  change (match ofEntries (layered es environment flags) with
    | .error (.invalid .options issues) => _
    | result => result) = _
  rw [hchecked]
  by_cases hnil : issues flags environment es = []
  · rw [if_pos hnil, if_pos hnil]
  · rw [if_neg hnil, if_neg hnil]

/-- What a run finds as its settings, given the entries of its project file. -/
structure Resolves (path : String) (project : Option (List UInt8))
    (environment : List (String × String)) (flags es : Entries) : Prop where
  /-- Each setting is what the strongest source says, or its default. -/
  holds : ∀ s, resolve path project environment flags = .ok s →
    ∀ f : Field, f.Holds (f.validated flags environment es) s
  succeeds : (∃ s, resolve path project environment flags = .ok s) ↔
    (∀ f v, Field.chosen flags environment es f = some v → f.Accepts v) ∧
      ∀ e ∈ es, e.1.text ∈ fieldNames
  fails : ∀ fault, resolve path project environment flags = .error fault →
    fault = .of (.invalidOptions (issues flags environment es))
  /-- What the project file says of a setting makes no difference under a stronger source. -/
  masks : ∀ f v, Field.above flags environment f = some v → ∀ other es',
    loaded path other = .ok es' → unknown es' = unknown es →
    (∀ g : Field, g ≠ f → find? (.str g.name) es' = find? (.str g.name) es) →
    resolve path other environment flags = resolve path project environment flags
  /-- A bad value in the project file is reported where there is no stronger source. -/
  exposes : ∀ f v i, Field.above flags environment f = none → find? (.str f.name) es = some v →
    f.issue v = some i → ∃ is, i ∈ is ∧
      resolve path project environment flags = .error (.of (.invalidOptions is))
  /-- A name that is no setting is always reported. -/
  rejects : ∀ e ∈ es, e.1.text ∉ fieldNames →
    ∃ is, { field := e.1.text, kind := .unknownField } ∈ is ∧
    resolve path project environment flags = .error (.of (.invalidOptions is))

/-- Settings are taken from the strongest source, each by itself: the command line, the environment,
the project file, the defaults. -/
theorem resolves_by_precedence {path : String} {project : Option (List UInt8)} {es flags : Entries}
    (hproject : loaded path project = .ok es) (environment : List (String × String))
    (hflags : AreFlags flags) : Resolves path project environment flags es := by
  have heq := resolve_eq_of_loaded hproject environment hflags
  have hreports (i : Issue) (hi : i ∈ issues flags environment es) :
      ∃ is, i ∈ is ∧ resolve path project environment flags = .error (.of (.invalidOptions is)) :=
    ⟨_, hi, by rw [heq, if_neg (List.ne_nil_of_mem hi)]⟩
  constructor
  case holds =>
    intro s hs
    rw [heq] at hs
    split at hs
    · next hnil =>
        obtain rfl := Except.ok.inj hs
        refine holds_ofValues fun f => (f.issue_eq_none_iff _).1 ?_
        rw [Field.issue_validated, Option.bind_eq_none_iff]
        exact fun v hv => (f.issue_eq_none_iff v).2 ((issues_eq_nil_iff.1 hnil).1 f v hv)
    · cases hs
  case succeeds =>
    rw [← issues_eq_nil_iff, heq]
    split
    · next hnil => exact ⟨fun _ => hnil, fun _ => ⟨_, rfl⟩⟩
    · next hne => exact ⟨fun ⟨_, hs⟩ => (nomatch hs), fun hnil => absurd hnil hne⟩
  case fails =>
    intro fault hfault
    rw [heq] at hfault
    split at hfault
    · cases hfault
    · exact (Except.error.inj hfault).symm
  case masks =>
    intro f v habove other es' hother hunknown hothers
    have hchosen (g : Field) :
        g.chosen flags environment es' = g.chosen flags environment es := by
      rw [Field.chosen, Field.chosen]
      by_cases hg : g = f
      · rw [hg, habove, Option.some_or, Option.some_or]
      · rw [hothers g hg]
    have hissues : issues flags environment es' = issues flags environment es := by
      simp only [issues, hchosen, hunknown]
    have hvalidated :
        Field.validated flags environment es' = Field.validated flags environment es :=
      funext fun g => by rw [Field.validated, Field.validated, hchosen]
    rw [heq, resolve_eq_of_loaded hother environment hflags, hissues, hvalidated]
  case exposes =>
    intro f v i habove hv hi
    refine hreports i (List.mem_append_left _ (List.mem_filterMap.2 ⟨f, f.mem_all, ?_⟩))
    rw [Field.chosen, habove, hv, Option.none_or, Option.bind_some, hi]
  case rejects =>
    intro e he hname
    refine hreports _ (List.mem_append_right _ (List.mem_filterMap.2 ⟨e, he, ?_⟩))
    exact if_neg fun hcontains => hname (List.contains_iff_mem.1 hcontains)

/-- A project file with a namespace that is no text, under a namespace in the environment, and with
an output directory under that of the command line. -/
theorem resolves_by_precedence_masked :
    ∃ project es environment flags,
      loaded "phpclientgen.json" project = .ok es ∧ AreFlags flags ∧
        find? (.str "namespace") es = some (.int 5) ∧
        Resolves "phpclientgen.json" project environment flags es ∧
        resolve "phpclientgen.json" project environment flags =
          .ok { baseNamespace := "Acme", output := "lib" } := by
  let es : Entries := [(.str "namespace", .int 5), (.str "output", .str "out")]
  let flags : Entries := [(.str "output", .str "lib"), (.str "client_name", .null)]
  let bytes := "\x7b\"namespace\": 5, \"output\": \"out\"\x7d".toUTF8.toList
  have hproject : loaded "phpclientgen.json" (some bytes) = .ok es := by decide +kernel
  have hflags : AreFlags flags :=
    ⟨⟨by simp [flags], by simp [flags]⟩, by
      simp only [flags, List.forall_mem_cons]
      exact ⟨⟨.output, rfl⟩, ⟨.clientName, rfl⟩, by simp⟩⟩
  exact ⟨some bytes, es, [("PHPCLIENTGEN_NAMESPACE", "Acme")], flags, hproject, hflags, rfl,
    resolves_by_precedence hproject _ hflags, by decide +kernel⟩

end Settings

end OpenApiClient
