import OpenApiClient.Php.Files
import OpenApiClient.Proofs.Comments
import OpenApiClient.Proofs.Members

/-!
# Texts of the description in comments

The files of the client, the managers and the resources show texts of the description in comments:
title and version, summaries, descriptions and paths of operations, the first lines of what is said
of parameters, and what is said of properties.  A file is cut into sections, so that a comment that
shows such texts is a section of its own.  The file is tidy if each of these comments starts in
code and is over with its last line.

A file is tidy exactly if it is so without the texts and none of them has the end of a comment in
it; nothing is done about a text that has.  Then the code of the file is the same whatever the texts
are.
-/

namespace OpenApiClient

/-- An operation without its texts.  Its path is no mere text, but part of the request. -/
def Operation.silent (o : Operation) : Operation :=
  { o with summary := none, description := none
           parameters := [], requestBody := none, responses := [] }

def Parameter.silent (p : Parameter) : Parameter := { p with description := .null }

def Parameter.silentNamed (ps : List (String × Parameter)) : List (String × Parameter) :=
  ps.map (Prod.map id Parameter.silent)

def Property.silent (p : Property) : Property := { p with description := none }

/-- A method without its texts. -/
def Route.silent (m : Route) : Route :=
  { m with
    operation := m.operation.silent
    pathParameters := Parameter.silentNamed m.pathParameters
    queryParameters := Parameter.silentNamed m.queryParameters
    bodyParameters := Parameter.silentNamed m.bodyParameters
    methodParameters := m.methodParameters.map Parameter.silent }

def GeneratedClass.silent (c : GeneratedClass) : GeneratedClass :=
  { c with routes := c.routes.map Route.silent }

def ResourceClass.silent (c : ResourceClass) : ResourceClass :=
  { c with routes := c.routes.map Route.silent, properties := c.properties.map Property.silent }

/-- A client without its texts; its title has the title of the interface in it. -/
def ClientClass.silent (c : ClientClass) : ClientClass :=
  { c with title := "", information := ⟨"", "", none⟩ }

/-- What the documentation of a parameter tells of it: the first line of its description. -/
def Parameter.told (p : Parameter) : List String :=
  (Php.firstLine Php.clientTemplate p.description).toOption.toList

/-- The texts in the comment of a method. -/
def Route.texts (m : Route) : List String :=
  m.operation.summary.toList ++ m.operation.description.toList ++ [m.operation.path] ++
    m.methodParameters.flatMap Parameter.told

/-- The texts of an interface in the comment of each class. -/
def Information.texts (i : Information) : List String := [i.title, i.version]

namespace Php

open Text Walk

/-- A section of a file: lines without texts of the description, or a comment that may have some. -/
inductive Section where
  | given (lines : List String)
  | comment (depth : Nat) (lines : List String)

namespace Section

def lines : Section → List String
  | given lines => lines
  | comment depth lines => commentLines depth lines

/-- The characters of a section. -/
def text (s : Section) : List Char := charsOf s.lines

/-- Every comment with texts starts in code and is over with its last line. -/
def Tidy : Mode → List Section → Prop
  | _, [] => True
  | m, given lines :: rest => Tidy (m.after (charsOf lines)) rest
  | m, comment depth lines :: rest => m = .code ∧ IsClosed depth lines ∧ Tidy .code rest

instance Tidy.decidable : ∀ m ss, Decidable (Tidy m ss)
  | _, [] => .isTrue trivial
  | m, given lines :: rest => Tidy.decidable (m.after (charsOf lines)) rest
  | m, comment depth lines :: rest =>
    letI := Tidy.decidable .code rest
    inferInstanceAs (Decidable (m = .code ∧ IsClosed depth lines ∧ Tidy .code rest))

/-- Sections with texts, and the same sections without them. -/
inductive Tells : List String → List Section → List Section → Prop
  | nil : Tells [] [] []
  | given (lines : List String) {texts : List String} {ss ss' : List Section}
      (h : Tells texts ss ss') : Tells texts (given lines :: ss) (given lines :: ss')
  | comment (depth : Nat) {texts texts' lines lines' : List String} {ss ss' : List Section}
      (hcomment : AnyCloses lines ↔ AnyCloses lines' ∨ AnyCloses texts) (h : Tells texts' ss ss') :
      Tells (texts ++ texts') (comment depth lines :: ss) (comment depth lines' :: ss')

variable {m : Mode} {texts texts' : List String} {ss ss' rest rest' : List Section}

theorem toList_ofLines_flatMap : (ofLines (ss.flatMap lines)).toList = ss.flatMap text := by
  induction ss with
  | nil => rfl
  | cons s ss ih =>
      rw [List.flatMap_cons, ofLines_append, String.toList_append, ih, List.flatMap_cons,
        toList_ofLines]
      rfl

namespace Tells

theorem append (h : Tells texts ss ss') (hrest : Tells texts' rest rest') :
    Tells (texts ++ texts') (ss ++ rest) (ss' ++ rest') := by
  induction h with
  | nil => exact hrest
  | given lines _ ih => exact ih.given lines
  | comment depth hcomment _ ih =>
      rw [List.append_assoc]
      exact ih.comment depth hcomment

/-- Sections are tidy if they are so without their texts, and no text ends a comment. -/
theorem tidy_iff (h : Tells texts ss ss') : Tidy m ss ↔ Tidy m ss' ∧ ¬ AnyCloses texts := by
  induction h generalizing m with
  | nil => simp [Tidy]
  | given lines _ ih => exact ih
  | comment depth hcomment _ ih =>
      simp only [Tidy, isClosed_iff_not_anyCloses, hcomment, anyCloses_append, ih]
      grind

/-- The code of tidy sections is the same as without their texts. -/
theorem outside_eq (h : Tells texts ss ss') (htidy : Tidy m ss) (htidy' : Tidy m ss') :
    m.outside (ss.flatMap text) = m.outside (ss'.flatMap text) := by
  induction h generalizing m with
  | nil => rfl
  | given lines _ ih =>
      rw [List.flatMap_cons, List.flatMap_cons, Mode.outside_append, Mode.outside_append]
      exact congrArg _ (ih htidy htidy')
  | comment depth _ _ ih =>
      obtain ⟨rfl, hclosed, htidy⟩ := htidy
      obtain ⟨-, hclosed', htidy'⟩ := htidy'
      rw [List.flatMap_cons, List.flatMap_cons, Mode.outside_append, Mode.outside_append]
      simp only [text, lines, Mode.outside_commentLines, Mode.after_commentLines, hclosed, hclosed',
        ih htidy htidy']

end Tells

end Section

namespace PathTerm

section

variable {ps : List (String × Parameter)} {literal cs before rest name after : List Char}

theorem scan_of_none (h : cutAt? '\x7b' cs = none) :
    scan ps literal cs = ofLiteral (literal ++ cs) := by
  rw [scan]
  split <;> simp_all

theorem scan_of_open (h : cutAt? '\x7b' cs = some (before, rest))
    (hopen : cutAt? '\x7d' rest = none) :
    scan ps literal cs = ofLiteral (literal ++ cs) := by
  rw [scan]
  split
  · rfl
  · split <;> simp_all

theorem scan_of_placeholder (h : cutAt? '\x7b' cs = some (before, rest))
    (hclosed : cutAt? '\x7d' rest = some (name, after)) : scan ps literal cs =
      (ps.lookup (String.ofList name)).elim
        (scan ps (literal ++ before ++ '\x7b' :: name ++ ['\x7d']) after)
        (fun p => ofLiteral (literal ++ before) ++ .value name p :: scan ps [] after) := by
  rw [scan]
  split
  · simp_all
  · next h₁ =>
      rw [h] at h₁
      cases h₁
      split
      · simp_all
      · next h₂ =>
          rw [hclosed] at h₂
          cases h₂
          cases ps.lookup (String.ofList name) <;> rfl

end

/-- A part of a path without the texts of its parameter. -/
def silent : PathTerm → PathTerm
  | .literal cs => .literal cs
  | .value name p => .value name p.silent

theorem lookup_silentNamed (ps : List (String × Parameter)) (name : String) :
    (Parameter.silentNamed ps).lookup name = (ps.lookup name).map Parameter.silent := by
  induction ps with
  | nil => rfl
  | cons q ps ih =>
    unfold Parameter.silentNamed at ih ⊢
    rw [List.map_cons]
    obtain ⟨k, p⟩ := q
    simp only [Prod.map, id, List.lookup_cons, ih]
    split <;> rfl

theorem scan_silentNamed (ps : List (String × Parameter)) (literal cs : List Char) :
    scan (Parameter.silentNamed ps) literal cs = (scan ps literal cs).map silent := by
  have hliteral (cs : List Char) : (ofLiteral cs).map silent = ofLiteral cs := by
    unfold ofLiteral
    split <;> rfl
  fun_induction scan ps literal cs with
  | case1 literal cs h₁ => rw [scan_of_none h₁, hliteral]
  | case2 literal cs before rest h₁ h₂ => rw [scan_of_open h₁ h₂, hliteral]
  | case3 literal cs before rest h₁ name after h₂ hnone ih =>
      rw [scan_of_placeholder h₁ h₂, lookup_silentNamed, hnone, ← ih]
      rfl
  | case4 literal cs before rest h₁ name after h₂ p hsome ih =>
      rw [scan_of_placeholder h₁ h₂, lookup_silentNamed, hsome, List.map_append, hliteral,
        List.map_cons, ← ih]
      rfl
end PathTerm

section Method

variable {template : String} {m : Route} {p : Parameter}

/-- The lines in the comment of a method. -/
def methodComment (m : Route) (documented : List String) : List String :=
  summaryLines m.operation.summary ++ descriptionLines m.operation.description ++
    ["     * Operation: " ++ m.operation.method.name ++ " " ++ m.operation.path, "     *"] ++
    documented ++ [returnLine m, "     * @throws UnexpectedResponseException"] ++
    (if m.operation.deprecated then ["     * @deprecated"] else [])

/-- The lines of a method after its comment. -/
def methodCode (m : Route) (declared : List String) (unexpected : String) : List String :=
  ["    public function " ++ m.operation.operationId ++ "(" ++ join ", " declared ++ ")",
    "    \x7b"] ++ statementLines m unexpected ++ ["    \x7d"]

/-- The sections of a method. -/
def methodSections (template : String) (m : Route) : Except Fault (List Section) := do
  let documented ← m.methodParameters.mapM (parameterLine template)
  let declared ← m.methodParameters.mapM parameterDeclaration
  let unexpected ← unexpectedStatus m.expectedStatus
  return [.comment 1 (methodComment m documented), .given (methodCode m declared unexpected)]

theorem methodLines_eq (template : String) (m : Route) :
    methodLines template m = (methodSections template m).map (·.flatMap Section.lines) := by
  unfold methodLines methodSections
  cases m.methodParameters.mapM (parameterLine template) with
  | error e => rfl
  | ok documented =>
      cases m.methodParameters.mapM parameterDeclaration with
      | error e => rfl
      | ok declared =>
          cases unexpectedStatus m.expectedStatus with
          | error e => rfl
          | ok unexpected =>
              refine congrArg Except.ok ?_
              simp [Section.lines, commentLines_one, methodComment, methodCode]

theorem closes_comment_iff (line : String) : Closes ("     * " ++ line) ↔ Closes line :=
  Closes.append_iff_right (by decide) (by decide)

theorem closes_commentLine_iff (line : String) : Closes (commentLine line) ↔ Closes line := by
  unfold commentLine
  split
  · next hempty =>
      rw [String.isEmpty_iff.1 hempty]
      decide
  · exact closes_comment_iff line

/-- The lines of a text, each written in some way, and an empty line; nothing for an empty text. -/
def writtenLines (write : String → String) (text : Option String) : List String :=
  (text.filter (!·.isEmpty)).elim [] fun s => (textLines s).map write ++ ["     *"]

theorem summaryLines_eq (summary : Option String) :
    summaryLines summary = writtenLines ("     * " ++ ·) summary := by
  unfold summaryLines writtenLines
  cases summary.filter (!·.isEmpty) <;> rfl

theorem descriptionLines_eq (description : Option String) :
    descriptionLines description = writtenLines commentLine description := by
  unfold descriptionLines writtenLines
  cases description.filter (!·.isEmpty) <;> rfl

theorem anyCloses_writtenLines {write : String → String} {text : Option String}
    (hwrite : ∀ line, Closes (write line) ↔ Closes line) :
    AnyCloses (writtenLines write text) ↔ AnyCloses text.toList := by
  have hstar : ¬ Closes "     *" := by decide
  have hempty : ¬ Closes "" := by decide
  cases text with
  | none => simp [writtenLines]
  | some s =>
      rw [writtenLines, Option.filter_some]
      by_cases hs : s = ""
      · simp [hs, hempty]
      · simp [hs, hstar, anyCloses_map hwrite, anyCloses_textLines_iff]

/-- Only texts and rows of bytes have a first line. -/
theorem firstLine_cases {first : String} {v : Value} (h : firstLine template v = .ok first) :
    (∃ s, v = .str s ∧ first = (textLines s).headD "") ∨
      ∃ bs, v = .scalar (.bytes bs) ∧ first = quotedBytes (firstByteLine bs) := by
  have hother (x y : Fault) : ¬ (if v.has "splitlines" then .error x else .error y) =
      (Except.ok first : Except Fault String) := by
    split <;> simp
  unfold firstLine at h
  cases v with
  | scalar x =>
      cases x with
      | str s => exact .inl ⟨s, rfl, (Except.ok.inj h).symm⟩
      | bytes bs => exact .inr ⟨bs, rfl, (Except.ok.inj h).symm⟩
      | _ => exact absurd h (hother _ _)
  | _ => exact absurd h (hother _ _)

/-- Where the description is empty, so is its first line, up to quotes. -/
theorem not_closes_of_firstLine {first : String} {v : Value} (hfilled : v.isFilled = false)
    (h : firstLine template v = .ok first) : ¬ Closes first := by
  obtain ⟨s, rfl, rfl⟩ | ⟨bs, rfl, rfl⟩ := firstLine_cases h
  · obtain rfl : s = "" := by simpa [Value.str, Value.isFilled] using hfilled
    decide
  · obtain rfl : bs = [] := by simpa [Value.isFilled] using hfilled
    decide

/-- What follows the variable of a parameter is what is told of it, after a space. -/
theorem closes_remark_iff {remark : String}
    (h : parameterRemark template p.description = .ok remark) (before : String) :
    Closes (before ++ remark) ↔ Closes before ∨ AnyCloses p.told := by
  unfold parameterRemark at h
  split at h
  · obtain ⟨first, hfirst, rfl⟩ := map_eq_ok.1 h
    have htold : p.told = [first] := by
      obtain ⟨s, hd, rfl⟩ | ⟨bs, hd, rfl⟩ := firstLine_cases hfirst
      · rw [Parameter.told, hd]
        rfl
      · rw [Parameter.told, hd]
        rfl
    have hspace : ¬ Closes " " := by decide
    rw [htold, ← String.append_assoc, Closes.append_iff_of_last (by simp),
      Closes.append_iff_of_first (by decide)]
    simp [hspace]
  · next hfilled =>
      obtain rfl := Except.ok.inj h
      have htold : ¬ AnyCloses p.told := by
        rintro ⟨first, hfirst, hcloses⟩
        rw [Parameter.told, Option.mem_toList, toOption_eq_some] at hfirst
        exact not_closes_of_firstLine (by simpa using hfilled) hfirst hcloses
      simp [htold]

/-- The documentation of a parameter has the end of a comment in it if it has it without what is
told of the parameter, or if that has it. -/
theorem exists_parameterLine_silent {line : String} (h : parameterLine template p = .ok line) :
    ∃ line', parameterLine template p.silent = .ok line' ∧
      (Closes line ↔ Closes line' ∨ AnyCloses p.told) := by
  obtain ⟨type, htype, h⟩ := bind_eq_ok.1 h
  obtain ⟨remark, hremark, h⟩ := bind_eq_ok.1 h
  obtain rfl := Except.ok.inj h
  refine ⟨"     * @param " ++ type ++ " $" ++ p.variableName, ?_, closes_remark_iff hremark _⟩
  have hsilent : parameterDocType p.silent = .ok type := htype
  unfold parameterLine
  rw [hsilent]
  exact congrArg Except.ok String.append_empty

theorem requestPath_silentNamed (ps : List (String × Parameter)) (path : String) :
    requestPath (Parameter.silentNamed ps) path = requestPath ps path := by
  have htext (t : PathTerm) : t.silent.text = t.text := by cases t <;> rfl
  unfold requestPath PathTerm.ofTemplate
  rw [PathTerm.scan_silentNamed]
  cases PathTerm.scan ps [] path.toList with
  | nil => rfl
  | cons t ts =>
      have hmap : ((t :: ts).map PathTerm.silent).map PathTerm.text =
          (t :: ts).map PathTerm.text := by
        simp [htext]
      exact congrArg (join " . ") hmap

theorem flatMap_silentNamed {ps : List (String × Parameter)} {f : String × Parameter → List String}
    (h : ∀ q : String × Parameter, f (Prod.map id Parameter.silent q) = f q) :
    (Parameter.silentNamed ps).flatMap f = ps.flatMap f := by
  rw [Parameter.silentNamed, List.flatMap_map]
  exact congrArg (ps.flatMap ·) (funext h)

theorem statementLines_silent (m : Route) (unexpected : String) :
    statementLines m.silent unexpected = statementLines m unexpected := by
  have hpath : requestPath m.silent.pathParameters m.silent.operation.path =
      requestPath m.pathParameters m.operation.path := requestPath_silentNamed _ _
  have hquery : m.silent.queryParameters = Parameter.silentNamed m.queryParameters := rfl
  have hbody : m.silent.bodyParameters = Parameter.silentNamed m.bodyParameters := rfl
  unfold statementLines
  dsimp only
  rw [hpath, hquery, hbody, flatMap_silentNamed fun _ => rfl, flatMap_silentNamed fun _ => rfl]
  rfl

/-- The documentation of parameters has the end of a comment in it if it has it without what is told
of them, or if that has it. -/
theorem exists_documented_silent {ps : List Parameter} {documented : List String}
    (h : ps.mapM (parameterLine template) = .ok documented) :
    ∃ documented', (ps.map Parameter.silent).mapM (parameterLine template) = .ok documented' ∧
      (AnyCloses documented ↔ AnyCloses documented' ∨ AnyCloses (ps.flatMap Parameter.told)) := by
  induction ps generalizing documented with
  | nil =>
      obtain rfl := Except.ok.inj h
      exact ⟨[], rfl, by simp⟩
  | cons p ps ih =>
      rw [List.mapM_cons] at h
      obtain ⟨line, hline, h⟩ := bind_eq_ok.1 h
      obtain ⟨lines, hlines, h⟩ := bind_eq_ok.1 h
      obtain rfl := Except.ok.inj h
      obtain ⟨line', hline', hcloses⟩ := exists_parameterLine_silent hline
      obtain ⟨lines', hlines', hrest⟩ := ih hlines
      refine ⟨line' :: lines', ?_, ?_⟩
      · rw [List.map_cons, List.mapM_cons, hline', hlines']
        rfl
      · rw [List.flatMap_cons, anyCloses_cons, anyCloses_cons, anyCloses_append, hcloses, hrest]
        grind

theorem closes_operationLine_iff (method path : String) :
    Closes ("     * Operation: " ++ method ++ " " ++ path) ↔
      Closes ("     * Operation: " ++ method ++ " ") ∨ Closes path :=
  Closes.append_iff_of_last (by simp [List.getLast?_cons])

/-- A method without its texts has the same sections but for its comment. -/
theorem exists_methodSections_silent {ss : List Section} (h : methodSections template m = .ok ss) :
    ∃ ss', methodSections template m.silent = .ok ss' ∧ Section.Tells m.texts ss ss' := by
  obtain ⟨documented, hdocumented, h⟩ := bind_eq_ok.1 h
  obtain ⟨declared, hdeclared, h⟩ := bind_eq_ok.1 h
  obtain ⟨unexpected, hunexpected, h⟩ := bind_eq_ok.1 h
  obtain rfl := Except.ok.inj h
  obtain ⟨documented', hdocumented', hcloses⟩ := exists_documented_silent hdocumented
  have hdeclared' : (m.methodParameters.map Parameter.silent).mapM parameterDeclaration =
      .ok declared := by
    rw [List.mapM_map]
    exact hdeclared
  refine ⟨[.comment 1 (methodComment m.silent documented'),
    .given (methodCode m declared unexpected)], ?_, ?_⟩
  · have hcode : methodCode m.silent declared unexpected = methodCode m declared unexpected :=
      congrArg (fun lines => _ ++ lines ++ _) (statementLines_silent m unexpected)
    have hexpected : unexpectedStatus m.silent.expectedStatus = .ok unexpected := hunexpected
    unfold methodSections
    rw [show m.silent.methodParameters = m.methodParameters.map Parameter.silent from rfl,
      hdocumented', hdeclared', hexpected, ← hcode]
    rfl
  · rw [← List.append_nil m.texts]
    refine .comment 1 ?_ (.given _ .nil)
    have hsilent : methodComment m.silent documented' =
        ["     * Operation: " ++ m.operation.method.name ++ " " ++ m.operation.path, "     *"] ++
          documented' ++ [returnLine m, "     * @throws UnexpectedResponseException"] ++
          (if m.operation.deprecated then ["     * @deprecated"] else []) := rfl
    rw [hsilent, methodComment, Route.texts]
    simp only [summaryLines_eq, descriptionLines_eq, anyCloses_append, anyCloses_cons,
      anyCloses_nil, anyCloses_writtenLines closes_comment_iff,
      anyCloses_writtenLines closes_commentLine_iff, closes_operationLine_iff, hcloses]
    grind

/-- The sections of methods. -/
def methodsSections (template : String) (routes : List Route) : Except Fault (List Section) :=
  List.flatten <$> routes.mapM fun m => (Section.given [""] :: ·) <$> methodSections template m

variable {routes : List Route}

@[simp] theorem methodsSections_nil : methodsSections template [] = .ok [] := rfl

theorem methodsSections_cons : methodsSections template (m :: routes) = do
    let ss ← methodSections template m
    let rest ← methodsSections template routes
    return .given [""] :: (ss ++ rest) := by
  unfold methodsSections
  rw [List.mapM_cons]
  cases methodSections template m with
  | error e => rfl
  | ok ss =>
      cases routes.mapM fun m => (Section.given [""] :: ·) <$> methodSections template m <;> rfl

theorem methodsLines_cons : methodsLines template (m :: routes) = do
    let lines ← methodLines template m
    let rest ← methodsLines template routes
    return "" :: (lines ++ rest) := by
  unfold methodsLines
  rw [List.mapM_cons]
  cases methodLines template m with
  | error e => rfl
  | ok lines => cases routes.mapM fun m => ("" :: ·) <$> methodLines template m <;> rfl

theorem methodsLines_eq (template : String) (routes : List Route) :
    methodsLines template routes =
      (methodsSections template routes).map (·.flatMap Section.lines) := by
  induction routes with
  | nil => rfl
  | cons m routes ih =>
      rw [methodsLines_cons, methodsSections_cons, methodLines_eq, ih]
      cases methodSections template m with
      | error e => rfl
      | ok ss =>
          cases methodsSections template routes with
          | error e => rfl
          | ok rest =>
              exact congrArg (fun lines => Except.ok ("" :: lines)) List.flatMap_append.symm

theorem exists_methodsSections_silent {ss : List Section}
    (h : methodsSections template routes = .ok ss) :
    ∃ ss', methodsSections template (routes.map Route.silent) = .ok ss' ∧
      Section.Tells (routes.flatMap Route.texts) ss ss' := by
  induction routes generalizing ss with
  | nil =>
      obtain rfl := Except.ok.inj h
      exact ⟨[], rfl, .nil⟩
  | cons m routes ih =>
      rw [methodsSections_cons] at h
      obtain ⟨own, hown, h⟩ := bind_eq_ok.1 h
      obtain ⟨rest, hrest, h⟩ := bind_eq_ok.1 h
      obtain rfl := Except.ok.inj h
      obtain ⟨own', hown', htells⟩ := exists_methodSections_silent hown
      obtain ⟨rest', hrest', htellsRest⟩ := ih hrest
      refine ⟨.given [""] :: (own' ++ rest'), ?_, (htells.append htellsRest).given [""]⟩
      rw [List.map_cons, methodsSections_cons, hown', hrest']
      rfl

end Method

section Class

variable {client : ClientClass}

/-- The lines in the comment of the client. -/
def clientComment (c : ClientClass) : List String :=
  [" * " ++ c.title, " *", " * " ++ c.information.title ++ " API version " ++ c.information.version]

/-- The lines in the comment of another class. -/
def classComment (client : ClientClass) (title : String) : List String :=
  [" * " ++ title, " *",
    " * Generated from " ++ client.information.title ++ " " ++ client.information.version ++ "."]

theorem closes_titleLine_iff (title : String) : Closes (" * " ++ title) ↔ Closes title :=
  Closes.append_iff_right (by decide) (by decide)

theorem anyCloses_clientComment_iff (c : ClientClass) :
    AnyCloses (clientComment c) ↔ AnyCloses (c.title :: c.information.texts) := by
  have hstar : ¬ Closes " *" := by decide
  have hstart : ¬ Closes " * " := by decide
  have hversion : ¬ Closes " API version " := by decide
  have hline : Closes (" * " ++ c.information.title ++ " API version " ++ c.information.version) ↔
      Closes c.information.title ∨ Closes c.information.version := by
    rw [Closes.append_iff_of_last (by simp [List.getLast?_cons]),
      Closes.append_iff_of_first (by simp), closes_titleLine_iff]
    simp [hversion]
  simp [clientComment, Information.texts, closes_titleLine_iff, hstar, hline]

theorem anyCloses_classComment_iff (client : ClientClass) (title : String) :
    AnyCloses (classComment client title) ↔ Closes title ∨ AnyCloses client.information.texts := by
  have hstar : ¬ Closes " *" := by decide
  have hspace : ¬ Closes " " := by decide
  have hperiod : ¬ Closes "." := by decide
  have hstart : ¬ Closes " * Generated from " := by decide
  have hline : Closes (" * Generated from " ++ client.information.title ++ " " ++
      client.information.version ++ ".") ↔
      Closes client.information.title ∨ Closes client.information.version := by
    rw [Closes.append_iff_of_first (by simp),
      Closes.append_iff_of_last (by simp [List.getLast?_cons]),
      Closes.append_iff_of_first (by simp), Closes.append_iff_of_last (by simp)]
    simp [hspace, hperiod, hstart]
  simp [classComment, Information.texts, closes_titleLine_iff, hstar, hline]

/-- The sections of the file of a client. -/
def clientSections (c : ClientClass) : List Section :=
  [.given (headLines c.space
      ["GuzzleHttp\\Client as HttpClient", "GuzzleHttp\\ClientInterface", responseInterface]
      c.uses),
    .comment 0 (clientComment c),
    .given (["class " ++ c.name, "\x7b"] ++ clientStateLines c ++ [""] ++ clientMethodLines c ++
      ["\x7d"])]

theorem clientFile_eq (c : ClientClass) :
    clientFile c = ofLines ((clientSections c).flatMap Section.lines) := by
  refine congrArg ofLines ?_
  simp [clientSections, Section.lines, commentLines_zero, titleLines, clientComment]

theorem tells_clientSections (c : ClientClass) :
    Section.Tells (c.title :: c.information.texts) (clientSections c)
      (clientSections c.silent) := by
  rw [← List.append_nil (c.title :: c.information.texts)]
  refine .given _ (.comment 0 ?_ (.given _ .nil))
  have hsilent : ¬ AnyCloses ["", "", ""] := by decide
  rw [anyCloses_clientComment_iff, anyCloses_clientComment_iff]
  exact (or_iff_right hsilent).symm

/-- The sections at the beginning of the file of a class that belongs to a client. -/
def classHeadSections (client : ClientClass) (c : GeneratedClass) (declaration : String) :
    List Section :=
  [.given (headLines c.space [responseInterface] c.uses), .comment 0 (classComment client c.title),
    .given (["class " ++ declaration, "\x7b"] ++
      memberLines ["     * The API client", "     *"] client.name "apiClient")]

theorem classHeadLines_eq (client : ClientClass) (c : GeneratedClass) (declaration : String) :
    classHeadLines client c declaration =
      (classHeadSections client c declaration).flatMap Section.lines := by
  simp [classHeadLines, classHeadSections, Section.lines, commentLines_zero, titleLines,
    classComment]

theorem tells_classHeadSections (client : ClientClass) (c : GeneratedClass) (declaration : String) :
    Section.Tells client.information.texts (classHeadSections client c declaration)
      (classHeadSections client.silent c.silent declaration) := by
  rw [← List.append_nil client.information.texts]
  refine .given _ (.comment 0 ?_ (.given _ .nil))
  have hsilent : ¬ AnyCloses ["", ""] := by decide
  rw [anyCloses_classComment_iff, anyCloses_classComment_iff]
  exact or_congr_left (or_iff_left hsilent).symm

/-- The sections of the file of a manager. -/
def managerSections (client : ClientClass) (c : GeneratedClass) : Except Fault (List Section) := do
  let methods ← methodsSections managerTemplate c.routes
  return classHeadSections client c c.name ++
    Section.given ["", "    /**",
      "     * " ++ c.name ++ " constructor.",
      "     *",
      "     * @param " ++ client.name ++ " $apiClient The API client",
      "     */",
      "    public function __construct(" ++ client.name ++ " $apiClient)",
      "    \x7b",
      "        $this->apiClient = $apiClient;",
      "    \x7d"] :: methods ++ [.given ["\x7d"]]

theorem managerFile_eq_sections (client : ClientClass) (c : GeneratedClass) :
    managerFile client c =
      (managerSections client c).map fun ss => ofLines (ss.flatMap Section.lines) := by
  unfold managerFile managerSections
  rw [methodsLines_eq, classHeadLines_eq]
  cases methodsSections managerTemplate c.routes with
  | error e => rfl
  | ok methods =>
      refine congrArg (fun lines => Except.ok (ofLines lines)) ?_
      simp [Section.lines]

theorem exists_managerSections_silent {c : GeneratedClass} {ss : List Section}
    (h : managerSections client c = .ok ss) :
    ∃ ss', managerSections client.silent c.silent = .ok ss' ∧
      Section.Tells (client.information.texts ++ c.routes.flatMap Route.texts) ss ss' := by
  obtain ⟨methods, hmethods, h⟩ := bind_eq_ok.1 h
  obtain rfl := Except.ok.inj h
  obtain ⟨methods', hmethods', htells⟩ := exists_methodsSections_silent hmethods
  refine ⟨_, congrArg (· >>= _) hmethods', ?_⟩
  have hhead := tells_classHeadSections client c c.name
  rw [← List.append_nil (_ ++ _)]
  exact (hhead.append (htells.given _)).append (.given _ .nil)

/-- The sections of a member variable that holds a property, after an empty line. -/
def propertySections (p : Property) : List Section :=
  [.given [""],
    .comment 1 (descriptionLines p.description ++ ["     * @var " ++ propertyDocType p]),
    .given ["    protected $" ++ Name.variableName p.name ++ ";"]]

theorem propertyLines_eq (p : Property) :
    "" :: memberLines (descriptionLines p.description) (propertyDocType p)
        (Name.variableName p.name) =
      (propertySections p).flatMap Section.lines := by
  simp [propertySections, Section.lines, commentLines_one, memberLines]

theorem tells_propertySections (p : Property) :
    Section.Tells p.description.toList (propertySections p) (propertySections p.silent) := by
  rw [← List.append_nil p.description.toList]
  refine .given _ (.comment 1 ?_ (.given _ .nil))
  have hsilent : descriptionLines p.silent.description ++
      ["     * @var " ++ propertyDocType p.silent] = ["     * @var " ++ propertyDocType p] := rfl
  rw [hsilent, anyCloses_append, descriptionLines_eq,
    anyCloses_writtenLines closes_commentLine_iff]
  exact or_comm

theorem tells_propertiesSections (ps : List Property) :
    Section.Tells (ps.flatMap (·.description.toList)) (ps.flatMap propertySections)
      ((ps.map Property.silent).flatMap propertySections) := by
  induction ps with
  | nil => exact .nil
  | cons p ps ih => exact (tells_propertySections p).append ih

/-- The constructor of a resource. -/
def resourceConstructorLines (client : ClientClass) (c : ResourceClass) : List String :=
  let variableNames := c.properties.map fun p => Name.variableName p.name
  ["", "    /**", "     * " ++ c.name ++ " constructor.", "     *",
    "     * @param " ++ client.name ++ " $apiClient The API client"] ++
  c.properties.map (fun p =>
    "     * @param " ++ propertyType p ++ "|null $" ++ Name.variableName p.name) ++
  ["     */",
    "    public function __construct(" ++ client.name ++ " $apiClient" ++
      join "" (variableNames.map fun v => ", $" ++ v ++ " = null") ++ ")",
    "    \x7b",
    "        $this->apiClient = $apiClient;"] ++
  variableNames.map (fun v => "        $this->" ++ v ++ " = $" ++ v ++ ";") ++
  ["    \x7d"]

theorem resourceStateLines_eq (client : ClientClass) (c : ResourceClass) :
    resourceStateLines client c =
      (c.properties.flatMap propertySections).flatMap Section.lines ++
        resourceConstructorLines client c := by
  unfold resourceStateLines resourceConstructorLines
  simp only [propertyLines_eq, List.flatMap_assoc, List.append_assoc]

theorem resourceConstructorLines_silent (client : ClientClass) (c : ResourceClass) :
    resourceConstructorLines client.silent c.silent = resourceConstructorLines client c := by
  have hmap {f : Property → String} (hf : ∀ p : Property, f p.silent = f p) :
      c.silent.properties.map f = c.properties.map f :=
    (List.map_map ..).trans (congrArg (c.properties.map ·) (funext hf))
  unfold resourceConstructorLines
  rw [hmap fun _ => rfl, hmap fun _ => rfl]
  rfl

theorem resourceAccessLines_silent (ps : List Property) :
    resourceAccessLines (ps.map Property.silent) = resourceAccessLines ps := by
  unfold resourceAccessLines
  rw [List.flatMap_map, List.map_map]
  rfl

/-- The sections of the file of a resource. -/
def resourceSections (client : ClientClass) (c : ResourceClass) : Except Fault (List Section) := do
  let methods ← methodsSections resourceTemplate c.routes
  return classHeadSections client c.toGeneratedClass (c.name ++ " implements \\JsonSerializable") ++
    c.properties.flatMap propertySections ++
    .given (resourceConstructorLines client c ++ resourceAccessLines c.properties) :: methods ++
    [Section.given ["\x7d"]]

theorem resourceFile_eq_sections (client : ClientClass) (c : ResourceClass) :
    resourceFile client c =
      (resourceSections client c).map fun ss => ofLines (ss.flatMap Section.lines) := by
  unfold resourceFile resourceSections
  rw [methodsLines_eq, classHeadLines_eq, resourceStateLines_eq]
  cases methodsSections resourceTemplate c.routes with
  | error e => rfl
  | ok methods =>
      refine congrArg (fun lines => Except.ok (ofLines lines)) ?_
      simp [Section.lines]

/-- The texts in the comments of the file of a resource. -/
theorem exists_resourceSections_silent {c : ResourceClass} {ss : List Section}
    (h : resourceSections client c = .ok ss) :
    ∃ ss', resourceSections client.silent c.silent = .ok ss' ∧
      Section.Tells (client.information.texts ++ c.properties.flatMap (·.description.toList) ++
        c.routes.flatMap Route.texts) ss ss' := by
  obtain ⟨methods, hmethods, h⟩ := bind_eq_ok.1 h
  obtain rfl := Except.ok.inj h
  obtain ⟨methods', hmethods', htells⟩ := exists_methodsSections_silent hmethods
  refine ⟨_, congrArg (· >>= _) hmethods', ?_⟩
  have hhead := tells_classHeadSections client c.toGeneratedClass
    (c.name ++ " implements \\JsonSerializable")
  rw [← List.append_nil (_ ++ _), ← resourceConstructorLines_silent, ← resourceAccessLines_silent]
  exact ((hhead.append (tells_propertiesSections c.properties)).append (htells.given _)).append
    (.given _ .nil)

end Class

/-- A file with texts of the description in its comments. -/
inductive Page where
  | client (c : ClientClass)
  | manager (owner : ClientClass) (c : GeneratedClass)
  | resource (owner : ClientClass) (c : ResourceClass)

namespace Page

/-- The file as it is written. -/
def content : Page → Except Fault String
  | client c => .ok (clientFile c)
  | manager owner c => managerFile owner c
  | resource owner c => resourceFile owner c

/-- The file without its texts. -/
def silent : Page → Page
  | client c => client c.silent
  | manager owner c => manager owner.silent c.silent
  | resource owner c => resource owner.silent c.silent

/-- The texts in the comments of the file. -/
def texts : Page → List String
  | client c => c.title :: c.information.texts
  | manager owner c => owner.information.texts ++ c.routes.flatMap Route.texts
  | resource owner c =>
    owner.information.texts ++ c.properties.flatMap (·.description.toList) ++
      c.routes.flatMap Route.texts

def sections : Page → Except Fault (List Section)
  | client c => .ok (clientSections c)
  | manager owner c => managerSections owner c
  | resource owner c => resourceSections owner c

/-- Every comment with texts starts in code and is over with its last line. -/
def IsTidy (p : Page) : Prop := ∀ ss, p.sections = .ok ss → Section.Tidy .text ss

instance (p : Page) : Decidable p.IsTidy :=
  decidable_of_iff (∀ ss ∈ p.sections.toOption, Section.Tidy .text ss) <|
    forall_congr' fun _ => imp_congr_left toOption_eq_some

theorem content_eq (p : Page) :
    p.content = p.sections.map fun ss => ofLines (ss.flatMap Section.lines) := by
  cases p with
  | client c => exact congrArg Except.ok (clientFile_eq c)
  | manager owner c => exact managerFile_eq_sections owner c
  | resource owner c => exact resourceFile_eq_sections owner c

theorem exists_sections_silent {p : Page} {ss : List Section} (h : p.sections = .ok ss) :
    ∃ ss', p.silent.sections = .ok ss' ∧ Section.Tells p.texts ss ss' := by
  cases p with
  | client c =>
      obtain rfl := Except.ok.inj h
      exact ⟨_, rfl, tells_clientSections c⟩
  | manager owner c => exact exists_managerSections_silent h
  | resource owner c => exact exists_resourceSections_silent h

theorem isTidy_iff {p : Page} {ss : List Section} (h : p.sections = .ok ss) :
    p.IsTidy ↔ Section.Tidy .text ss :=
  ⟨fun htidy => htidy ss h, fun htidy _ h' => Except.ok.inj (h.symm.trans h') ▸ htidy⟩

end Page

/-- What of a file is neither in a comment nor in a literal. -/
def codeOf (content : String) : List Char := Mode.text.outside content.toList

namespace Page

variable {p q : Page} {content content' : String}

/-- The code of a file, read section by section. -/
def code (p : Page) : Option (List Char) :=
  p.sections.toOption.map fun ss => Mode.text.outside (ss.flatMap Section.text)

theorem code_eq (h : p.content = .ok content) : p.code = some (codeOf content) := by
  rw [content_eq] at h
  obtain ⟨ss, hss, rfl⟩ := map_eq_ok.1 h
  rw [code, hss, codeOf, Section.toList_ofLines_flatMap]
  rfl

/-- Once the texts are left out, there is none to leave out. -/
theorem silent_silent (p : Page) : p.silent.silent = p.silent := by
  have hnamed (ps : List (String × Parameter)) :
      Parameter.silentNamed (Parameter.silentNamed ps) = Parameter.silentNamed ps :=
    List.map_map ..
  have hparameters (ps : List Parameter) :
      (ps.map Parameter.silent).map Parameter.silent = ps.map Parameter.silent :=
    List.map_map ..
  have hroute (m : Route) : m.silent.silent = m.silent := by
    simp [Route.silent, hnamed, hparameters, Operation.silent]
  have hroutes (routes : List Route) :
      (routes.map Route.silent).map Route.silent = routes.map Route.silent :=
    (List.map_map ..).trans (congrArg (routes.map ·) (funext hroute))
  have hproperties (ps : List Property) :
      (ps.map Property.silent).map Property.silent = ps.map Property.silent :=
    List.map_map ..
  have hclient (c : ClientClass) : c.silent.silent = c.silent := rfl
  cases p with
  | client c => rfl
  | manager owner c => simp [silent, hclient, GeneratedClass.silent, hroutes]
  | resource owner c => simp [silent, hclient, ResourceClass.silent, hroutes, hproperties]

/-- A file is tidy if it is so without its texts, and none of them has the end of a comment. -/
theorem isTidy_iff_silent (h : p.content = .ok content) :
    p.IsTidy ↔ p.silent.IsTidy ∧ ∀ t ∈ p.texts, ¬ Closes t := by
  rw [content_eq] at h
  obtain ⟨ss, hss, -⟩ := map_eq_ok.1 h
  obtain ⟨ss', hss', htells⟩ := exists_sections_silent hss
  rw [isTidy_iff hss, isTidy_iff hss', htells.tidy_iff]
  simp [AnyCloses]

/-- The code of a tidy file is the code of the file without its texts. -/
theorem exists_content_silent (h : p.content = .ok content) (htidy : p.IsTidy) :
    ∃ content', p.silent.content = .ok content' ∧ codeOf content = codeOf content' := by
  have hsilent := ((isTidy_iff_silent h).1 htidy).1
  rw [content_eq] at h
  obtain ⟨ss, hss, rfl⟩ := map_eq_ok.1 h
  obtain ⟨ss', hss', htells⟩ := exists_sections_silent hss
  refine ⟨ofLines (ss'.flatMap Section.lines), by rw [content_eq, hss']; rfl, ?_⟩
  rw [codeOf, codeOf, Section.toList_ofLines_flatMap, Section.toList_ofLines_flatMap]
  exact htells.outside_eq (htidy _ hss) (hsilent _ hss')

theorem codeOf_eq (h : p.content = .ok content) (hq : q.content = .ok content')
    (hsilent : q.silent = p.silent) (htidy : p.IsTidy) (htidyq : q.IsTidy) :
    codeOf content = codeOf content' := by
  obtain ⟨bare, hbare, hcode⟩ := exists_content_silent h htidy
  obtain ⟨bare', hbare', hcode'⟩ := exists_content_silent hq htidyq
  rw [hsilent, hbare] at hbare'
  cases hbare'
  exact hcode.trans hcode'.symm

end Page

end Php

namespace Library

/-- The files of a library that have texts of the description in their comments. -/
def pages (l : Library) : List Php.Page :=
  Php.Page.client l.client :: l.managers.map (.manager l.client) ++
    l.resources.map (.resource l.client)

theorem contents_pages (l : Library) (withTests : Bool) :
    l.pages.map Php.Page.content <+: (Php.drafts l withTests).map (·.content) := by
  simp only [pages, Php.drafts, List.map_append, List.map_map, List.map_cons, List.cons_append,
    List.append_assoc, List.nil_append]
  exact List.cons_prefix_cons.2 ⟨rfl, (List.prefix_append_right_inj _).2 (List.prefix_append _ _)⟩

/-- The files of the client, of managers and of resources are the ones that show texts of the
description.  Such a file is tidy exactly if it is so without the texts, and none of them has the
end of a comment in it; and tidy files that differ in their texts only have the same code. -/
theorem isTidy_iff_and_codeOf_eq (l : Library) :
    (∀ withTests, l.pages.map Php.Page.content <+: (Php.drafts l withTests).map (·.content)) ∧
    ∀ p ∈ l.pages, ∀ content, p.content = .ok content →
      (p.IsTidy ↔ p.silent.IsTidy ∧ ∀ t ∈ p.texts, ¬ Php.Closes t) ∧
      ∀ (q : Php.Page) content', q.silent = p.silent → q.content = .ok content' →
        p.IsTidy → q.IsTidy → Php.codeOf content' = Php.codeOf content := by
  refine ⟨contents_pages l, fun p _ content h => ⟨Php.Page.isTidy_iff_silent h, ?_⟩⟩
  intro q content' hsilent hq htidy htidyq
  exact (Php.Page.codeOf_eq h hq hsilent htidy htidyq).symm

/-- Photos of pets, with a title and a summary. -/
def petPhotos (title summary : String) : Document := .ofValue <| .map 0 [
  (.str "openapi", .str "3.0.0"),
  (.str "info", .map 1 [(.str "title", .str title), (.str "version", .str "1")]),
  (.str "paths", .map 2 [(.str "/pets/photo", .map 3 [(.str "get", .map 4 [
    (.str "operationId", .str "getPhoto"),
    (.str "summary", .str summary),
    (.str "tags", .seq [.str "Manager:Pets"]),
    (.str "responses", .map 5 [(.str "200", .map 6 [(.str "description", .str "A photo")])])])])])]

/-- The texts of the files of managers, whether these can be written, and whether they are tidy
without their texts. -/
def managerTexts (l : Library) : List (List String × Bool × Bool) :=
  l.managers.map fun c => ((Php.Page.manager l.client c).texts,
    (Php.Page.manager l.client c).sections.toOption.isSome,
    decide (Php.Page.manager l.client c).silent.IsTidy)

theorem managerTexts_petPhotos :
    ofFirstMethod (petPhotos "Photos" "A photo as image/*") (fun l _ => managerTexts l) =
      some (.manager, "Pets",
        [(["Photos", "1", "A photo as image/*", "/pets/photo"], true, true)]) := by
  decide +kernel

/-- A slash and a star that do not end a comment do no harm. -/
theorem isTidy_petPhotos : ∃ d l p content content',
    Description.ofDocument (petPhotos "Photos" "A photo as image/*") "3.0.0" = .ok d ∧
    (ofDescription d {}).1 = .ok l ∧ p ∈ l.pages ∧
    p.texts = ["Photos", "1", "A photo as image/*", "/pets/photo"] ∧
    p.content = .ok content ∧ p.silent.content = .ok content' ∧ p.IsTidy ∧
    Php.codeOf content' = Php.codeOf content := by
  obtain ⟨d, l, m, hd, hl, -, hmanagers⟩ := exists_of_ofFirstMethod managerTexts_petPhotos
  obtain ⟨c, rest, hc, hfacts, -⟩ := List.map_eq_cons_iff.1 hmanagers
  obtain ⟨htexts, hfacts⟩ := Prod.mk.inj hfacts
  obtain ⟨hsections, hsilent⟩ := Prod.mk.inj hfacts
  have hsilent := of_decide_eq_true hsilent
  obtain ⟨ss, hss⟩ := Option.isSome_iff_exists.1 hsections
  have hmem : Php.Page.manager l.client c ∈ l.pages :=
    List.mem_append_left _ (List.mem_cons_of_mem _ (List.mem_map_of_mem (by rw [hc]; simp)))
  have hcontent : (Php.Page.manager l.client c).content = .ok _ :=
    (Php.Page.content_eq _).trans (congrArg (Except.map _) (Walk.toOption_eq_some.1 hss))
  obtain ⟨hiff, hcode⟩ := (isTidy_iff_and_codeOf_eq l).2 _ hmem _ hcontent
  have htidy := hiff.2 ⟨hsilent, by rw [htexts]; decide⟩
  obtain ⟨content', hcontent', -⟩ := Php.Page.exists_content_silent hcontent htidy
  exact ⟨d, l, _, _, content', hd, hl, hmem, htexts, hcontent, hcontent', htidy,
    hcode _ content' (Php.Page.silent_silent _) hcontent' htidy hsilent⟩

/-- The texts of the client's file, whether it is tidy without them, and whether its code is the
same without them. -/
def clientTexts (l : Library) : List String × Bool × Bool :=
  ((Php.Page.client l.client).texts, decide (Php.Page.client l.client).silent.IsTidy,
    decide ((Php.Page.client l.client).code = (Php.Page.client l.client).silent.code))

theorem clientTexts_petPhotos :
    ofFirstMethod (petPhotos "Photos as */*" "A photo as image/*") (fun l _ => clientTexts l) =
      some (.manager, "Pets",
        ["Photos as */* client class", "Photos as */*", "1"], true, false) := by
  decide +kernel

/-- The title of an interface can end the comment that it stands in. -/
theorem not_isTidy_petPhotos : ∃ d l p content content',
    Description.ofDocument (petPhotos "Photos as */*" "A photo as image/*") "3.0.0" = .ok d ∧
    (ofDescription d {}).1 = .ok l ∧ p ∈ l.pages ∧ "Photos as */*" ∈ p.texts ∧
    p.content = .ok content ∧ p.silent.content = .ok content' ∧ p.silent.IsTidy ∧ ¬ p.IsTidy ∧
    Php.codeOf content' ≠ Php.codeOf content := by
  obtain ⟨d, l, m, hd, hl, -, hfacts⟩ := exists_of_ofFirstMethod clientTexts_petPhotos
  obtain ⟨htexts, hfacts⟩ := Prod.mk.inj hfacts
  obtain ⟨hsilent, hcode⟩ := Prod.mk.inj hfacts
  have hsilent := of_decide_eq_true hsilent
  have hcontent : (Php.Page.client l.client).content = .ok (Php.clientFile l.client) := rfl
  have hcontent' : (Php.Page.client l.client).silent.content =
      .ok (Php.clientFile l.client.silent) := rfl
  have hmem : "Photos as */*" ∈ (Php.Page.client l.client).texts := by
    rw [htexts]
    simp
  refine ⟨d, l, _, _, _, hd, hl, List.mem_cons_self, hmem, hcontent, hcontent', hsilent,
    fun htidy => ?_, fun heq => of_decide_eq_false hcode ?_⟩
  · exact ((Php.Page.isTidy_iff_silent hcontent).1 htidy).2 _ hmem (by decide)
  · rw [Php.Page.code_eq hcontent, Php.Page.code_eq hcontent', heq]

end Library

end OpenApiClient
