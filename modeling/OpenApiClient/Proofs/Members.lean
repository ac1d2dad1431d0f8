import Mathlib.Data.List.Forall2
import OpenApiClient.Php.Classes
import OpenApiClient.Proofs.Tagging
import OpenApiClient.Proofs.Variables

/-!
# Members that a class declares

The file of a resource declares a member variable for the client and for each property, and a
constructor, a getter for each property, a method that makes the resource into JSON, and a method
for each operation; the files of managers and of the client are alike.  Properties of a resource
differ as they are written, and so do the operations of a class; but variables are made of the words
of a name, and methods are the same to PHP whatever their case.  So a class declares everything once
exactly if its names differ in more than that: `declaresOnce_iff`.
-/

namespace OpenApiClient

open Walk

namespace Php

/-- Whether a line of a class declares a member variable, and whether it declares a method. -/
def declaresMember (line : String) : Bool := Text.startsWith line.toList "    protected $".toList

def declaresMethod (line : String) : Bool :=
  Text.startsWith line.toList "    public function ".toList

/-- The line declares a member variable, with or without a value. -/
def IsMemberLine (line name : String) : Prop :=
  ∃ value, line = "    protected $" ++ name ++ value ++ ";" ∧
    (value = "" ∨ " = ".toList <+: value.toList)

/-- The line declares a method with some parameters. -/
def IsMethodLine (line name : String) : Prop :=
  ∃ parameters, line = "    public function " ++ name ++ "(" ++ parameters ++ ")"

/-- A line that declares nothing, as its first characters show. -/
def IsPlain (line : String) : Prop := ¬ [' ', ' ', ' ', ' ', 'p'] <+: line.toList

@[simp low] theorem isPlain_iff {line : String} :
    IsPlain line ↔ ¬ [' ', ' ', ' ', ' ', 'p'] <+: line.toList :=
  Iff.rfl

/-- Where a line begins with characters that are written out, they are all that is looked at. -/
theorem isPlain_ofList_append {cs : List Char} {rest : String}
    (h : (cs.zip [' ', ' ', ' ', ' ', 'p']).any (fun (a, b) => a != b) = true) :
    IsPlain (String.ofList cs ++ rest) := by
  have hprefix : ∀ start cs : List Char, (cs.zip start).any (fun (a, b) => a != b) = true →
      ¬ start <+: cs ++ rest.toList := by
    intro start
    induction start with
    | nil => simp
    | cons b start ih =>
        intro cs hdiffer
        cases cs with
        | nil => simp at hdiffer
        | cons a cs =>
            rw [List.cons_append, List.cons_prefix_cons]
            rintro ⟨rfl, hrest⟩
            exact ih cs (by simpa using hdiffer) hrest
  rw [isPlain_iff, String.toList_append, String.toList_ofList]
  exact hprefix _ cs h

theorem isPlain_ofList {cs : List Char}
    (h : (cs.zip [' ', ' ', ' ', ' ', 'p']).any (fun (a, b) => a != b) = true) :
    IsPlain (String.ofList cs) := by
  rw [← String.append_empty (s := String.ofList cs)]
  exact isPlain_ofList_append h

/-- Lines that declare nothing. -/
def ArePlain (lines : List String) : Prop := ∀ line ∈ lines, IsPlain line

section Plain

variable {α : Type}

@[simp] theorem arePlain_nil : ArePlain [] := nofun

@[simp] theorem arePlain_cons {line : String} {lines : List String} :
    ArePlain (line :: lines) ↔ IsPlain line ∧ ArePlain lines := by
  simp [ArePlain]

@[simp] theorem arePlain_append {lines lines' : List String} :
    ArePlain (lines ++ lines') ↔ ArePlain lines ∧ ArePlain lines' := by
  simp [ArePlain, or_imp, forall_and]

@[simp] theorem arePlain_map {f : α → String} {l : List α} :
    ArePlain (l.map f) ↔ ∀ a ∈ l, IsPlain (f a) := by
  simp [ArePlain]

@[simp] theorem arePlain_flatMap {f : α → List String} {l : List α} :
    ArePlain (l.flatMap f) ↔ ∀ a ∈ l, ArePlain (f a) := by
  simp only [ArePlain, List.mem_flatMap]
  exact ⟨fun h a ha line hl => h line ⟨a, ha, hl⟩, fun h line ⟨a, ha, hl⟩ => h a ha line hl⟩

@[simp] theorem arePlain_headLines (space : String) (always uses : List String) :
    ArePlain (headLines space always uses) := by
  simp [headLines]

@[simp] theorem arePlain_titleLines {title : String} {more : List String} :
    ArePlain (titleLines title more) ↔ ArePlain more := by
  simp [titleLines]

@[simp] theorem arePlain_tokenLines {c : ClientClass} {lines : List String} (h : ArePlain lines) :
    ArePlain (tokenLines c lines) := by
  unfold tokenLines
  split <;> simp [h]

@[simp] theorem arePlain_descriptionLines (description : Option String) :
    ArePlain (descriptionLines description) := by
  have hcomment (line : String) : IsPlain (commentLine line) := by
    unfold commentLine
    split <;> simp
  unfold descriptionLines
  split
  · exact arePlain_nil
  · exact arePlain_append.2 ⟨arePlain_map.2 fun line _ => hcomment line, by simp⟩

@[simp] theorem arePlain_summaryLines (summary : Option String) :
    ArePlain (summaryLines summary) := by
  unfold summaryLines
  split <;> simp

@[simp] theorem arePlain_storeLines (target : String) (p : Parameter) :
    ArePlain (storeLines target p) := by
  unfold storeLines
  dsimp only
  split <;> simp

@[simp] theorem arePlain_bodyLines (requestType : Option String) :
    ArePlain (bodyLines requestType) := by
  have hform : IsPlain "            $requestOptions['form_params'] = $bodyParameters;" :=
    isPlain_ofList rfl
  have hmultipart : ArePlain
      ["            $requestOptions['multipart'] = array_map(function ($name, $contents) \x7b",
       "                return ['name' => $name, 'contents' => $contents];",
       "            \x7d, array_keys($bodyParameters), $bodyParameters);"] :=
    arePlain_cons.2 ⟨isPlain_ofList rfl, arePlain_cons.2 ⟨isPlain_ofList rfl,
      arePlain_cons.2 ⟨isPlain_ofList rfl, arePlain_nil⟩⟩⟩
  have hjson : IsPlain "            $requestOptions['json'] = $bodyParameters;" :=
    isPlain_ofList rfl
  unfold bodyLines
  dsimp only
  split
  · exact arePlain_cons.2 ⟨hform, arePlain_nil⟩
  · split
    · exact hmultipart
    · exact arePlain_cons.2 ⟨hjson, arePlain_nil⟩

@[simp] theorem arePlain_failureLines (e : Option Expression) : ArePlain (failureLines e) := by
  have hbare : IsPlain
      "            throw new UnexpectedResponseException($response->getStatusCode(), $response);" :=
    isPlain_ofList rfl
  cases e with
  | none => exact arePlain_cons.2 ⟨hbare, arePlain_nil⟩
  | some e =>
      have hbefore : ArePlain ["            " ++ readBody,
          "            $errorResponse = " ++ expression 3 e ++ ";", ""] := by simp
      have hthrow : ArePlain
          ["            throw new UnexpectedResponseException($response->getStatusCode(), " ++
            "$response, $errorResponse);"] :=
                arePlain_cons.2 ⟨isPlain_ofList_append rfl, arePlain_nil⟩
      exact arePlain_append.2 ⟨hbefore, hthrow⟩

@[simp] theorem arePlain_resultLines (e : Option Expression) : ArePlain (resultLines e) := by
  cases e <;> simp [resultLines]

@[simp] theorem arePlain_statementLines (r : Route) (unexpected : String) :
    ArePlain (statementLines r unexpected) := by
  have hoptions : IsPlain "        $requestOptions = ['http_errors' => false];" :=
    isPlain_ofList rfl
  have hquery : IsPlain "            $requestOptions['query'] = $queryParameters;" :=
    isPlain_ofList rfl
  have hempty : IsPlain "        if (!empty($queryParameters)) \x7b" ∧
      IsPlain "        if (!empty($bodyParameters)) \x7b" :=
        ⟨isPlain_ofList rfl, isPlain_ofList rfl⟩
  simp [statementLines, hoptions, hquery, hempty]

@[simp] theorem arePlain_ite {p : Prop} [Decidable p] {lines : List String} (h : ArePlain lines) :
    ArePlain (if p then lines else []) := by
  split
  · exact h
  · exact arePlain_nil

@[simp] theorem isPlain_returnLine (r : Route) : IsPlain (returnLine r) := by
  unfold returnLine
  split <;> simp

theorem isPlain_of_parameterLine {template : String} {p : Parameter} {line : String}
    (h : parameterLine template p = .ok line) : IsPlain line := by
  obtain ⟨type, -, h⟩ := bind_eq_ok.1 h
  obtain ⟨remark, -, h⟩ := bind_eq_ok.1 h
  obtain rfl := Except.ok.inj h
  simp

end Plain

/-- The lines declare these member variables and these methods, in this order, and nothing else. -/
structure Declares (lines members methods : List String) : Prop where
  members : List.Forall₂ IsMemberLine (lines.filter declaresMember) members
  methods : List.Forall₂ IsMethodLine (lines.filter declaresMethod) methods

namespace Declares

variable {α : Type} {lines lines' members members' methods methods' : List String}

theorem append (h : Declares lines members methods) (h' : Declares lines' members' methods') :
    Declares (lines ++ lines') (members ++ members') (methods ++ methods') where
  members := by
    rw [List.filter_append]
    exact List.rel_append h.members h'.members
  methods := by
    rw [List.filter_append]
    exact List.rel_append h.methods h'.methods

theorem of_arePlain (h : ArePlain lines) : Declares lines [] [] := by
  have hnone (start : String) (hstart : [' ', ' ', ' ', ' ', 'p'] <+: start.toList) :
      lines.filter (fun line => Text.startsWith line.toList start.toList) = [] :=
    List.filter_eq_nil_iff.2 fun line hl hline =>
      h line hl (hstart.trans (List.isPrefixOf_iff_prefix.1 hline))
  constructor
  case members => exact (hnone "    protected $" (by decide)).symm ▸ .nil
  case methods => exact (hnone "    public function " (by decide)).symm ▸ .nil

/-- Lines that declare nothing do not matter. -/
theorem around (before after : List String) (hbefore : ArePlain before)
    (h : Declares lines members methods) (hafter : ArePlain after) :
    Declares (before ++ lines ++ after) members methods := by
  simpa using ((of_arePlain hbefore).append h).append (of_arePlain hafter)

theorem member (name : String) {value : String}
    (hvalue : value = "" ∨ " = ".toList <+: value.toList) :
    Declares ["    protected $" ++ name ++ value ++ ";"] [name] [] := by
  constructor
  case members =>
    rw [List.filter_cons_of_pos (by simp [declaresMember, Text.startsWith])]
    exact .cons ⟨value, rfl, hvalue⟩ .nil
  case methods =>
    rw [List.filter_cons_of_neg (by simp [declaresMethod, Text.startsWith, List.isPrefixOf])]
    exact .nil

theorem method (name parameters : String) :
    Declares ["    public function " ++ name ++ "(" ++ parameters ++ ")"] [] [name] := by
  constructor
  case members =>
    rw [List.filter_cons_of_neg (by simp [declaresMember, Text.startsWith, List.isPrefixOf])]
    exact .nil
  case methods =>
    rw [List.filter_cons_of_pos (by simp [declaresMethod, Text.startsWith])]
    exact .cons ⟨parameters, rfl⟩ .nil

variable {f : α → List String} {name : α → String} {l : List α}

theorem each_member (h : ∀ a ∈ l, Declares (f a) [name a] []) :
    Declares (l.flatMap f) (l.map name) [] := by
  induction l with
  | nil => exact .of_arePlain arePlain_nil
  | cons a l ih =>
      exact (h a List.mem_cons_self).append (ih fun b hb => h b (List.mem_cons_of_mem a hb))

theorem each_method (h : ∀ a ∈ l, Declares (f a) [] [name a]) :
    Declares (l.flatMap f) [] (l.map name) := by
  induction l with
  | nil => exact .of_arePlain arePlain_nil
  | cons a l ih =>
      exact (h a List.mem_cons_self).append (ih fun b hb => h b (List.mem_cons_of_mem a hb))

end Declares

section Lines

theorem declares_memberLines (doc : List String) (type name : String) {value : String}
    (hdoc : ArePlain doc) (hvalue : value = "" ∨ " = ".toList <+: value.toList) :
    Declares (memberLines doc type (name ++ value)) [name] [] := by
  have heq : memberLines doc type (name ++ value) = (["    /**"] ++ doc ++
      ["     * @var " ++ type, "     */"]) ++
          ["    protected $" ++ name ++ value ++ ";"] ++ [] := by
    simp [memberLines, String.append_assoc]
  rw [heq]
  exact .around _ _ (by simp [hdoc]) (.member name hvalue) arePlain_nil

/-- A member variable without a value. -/
theorem declares_member (doc : List String) (type name : String) (hdoc : ArePlain doc) :
    Declares (memberLines doc type name) [name] [] := by
  simpa using declares_memberLines doc type name hdoc (.inl rfl)

theorem declares_methodLines {template : String} {r : Route} {lines : List String}
    (h : methodLines template r = .ok lines) : Declares lines [] [r.id] := by
  obtain ⟨documented, hdocumented, h⟩ := bind_eq_ok.1 h
  obtain ⟨declared, -, h⟩ := bind_eq_ok.1 h
  obtain ⟨unexpected, -, h⟩ := bind_eq_ok.1 h
  obtain rfl := Except.ok.inj h
  have hplain : ArePlain documented := by
    intro line hl
    obtain ⟨p, -, hp⟩ := exists_of_mapM_eq_ok hdocumented hl
    exact isPlain_of_parameterLine hp
  have hlines := Declares.around
    (["    /**"] ++ summaryLines r.operation.summary ++
      descriptionLines r.operation.description ++
      ["     * Operation: " ++ r.operation.method.name ++ " " ++ r.operation.path, "     *"] ++
      documented ++ [returnLine r] ++ ["     * @throws UnexpectedResponseException"] ++
      (if r.operation.deprecated then ["     * @deprecated"] else []) ++ ["     */"])
    ("    \x7b" :: statementLines r unexpected ++ ["    \x7d"])
    (by simp [hplain]) (.method r.id (Text.join ", " declared)) (by simp)
  simpa [Route.id] using hlines

theorem declares_methodsLines {template : String} {routes : List Route} {lines : List String}
    (h : methodsLines template routes = .ok lines) : Declares lines [] (routes.map (·.id)) := by
  obtain ⟨parts, hparts, rfl⟩ := map_eq_ok.1 h
  induction routes generalizing parts with
  | nil =>
      obtain rfl := Except.ok.inj hparts
      exact .of_arePlain arePlain_nil
  | cons r routes ih =>
      rw [List.mapM_cons] at hparts
      obtain ⟨part, hpart, hparts⟩ := bind_eq_ok.1 hparts
      obtain ⟨rest, hrest, hparts⟩ := bind_eq_ok.1 hparts
      obtain rfl := Except.ok.inj hparts
      obtain ⟨lines, hlines, rfl⟩ := map_eq_ok.1 hpart
      have hempty : Declares [""] [] [] := .of_arePlain (by simp)
      have hrest := ih rest hrest (map_eq_ok.2 ⟨rest, hrest, rfl⟩)
      exact (hempty.append (declares_methodLines hlines)).append hrest

/-- The lines of the file of a manager. -/
def managerLines (client : ClientClass) (c : GeneratedClass) : Except Fault (List String) := do
  let methods ← methodsLines managerTemplate c.routes
  return classHeadLines client c c.name ++
    ["", "    /**",
     "     * " ++ c.name ++ " constructor.",
     "     *",
     "     * @param " ++ client.name ++ " $apiClient The API client",
     "     */",
     "    public function __construct(" ++ client.name ++ " $apiClient)",
     "    \x7b",
     "        $this->apiClient = $apiClient;",
     "    \x7d"] ++ methods ++ ["\x7d"]

theorem managerFile_eq (client : ClientClass) (c : GeneratedClass) :
    managerFile client c = (managerLines client c).map ofLines := by
  unfold managerFile managerLines
  cases methodsLines managerTemplate c.routes <;> rfl

/-- The lines of the file of a resource. -/
def resourceLines (client : ClientClass) (c : ResourceClass) : Except Fault (List String) := do
  let methods ← methodsLines resourceTemplate c.routes
  return classHeadLines client c.toGeneratedClass (c.name ++ " implements \\JsonSerializable") ++
    resourceStateLines client c ++ resourceAccessLines c.properties ++ methods ++ ["\x7d"]

theorem resourceFile_eq (client : ClientClass) (c : ResourceClass) :
    resourceFile client c = (resourceLines client c).map ofLines := by
  unfold resourceFile resourceLines
  cases methodsLines resourceTemplate c.routes <;> rfl

/-- The methods of a manager. -/
def managerMethods (c : GeneratedClass) : List String := "__construct" :: c.routes.map (·.id)

/-- The member variables of a resource. -/
def resourceMembers (c : ResourceClass) : List String :=
  "apiClient" :: c.properties.map fun p => Name.variableName p.name

/-- The methods of a resource. -/
def resourceMethods (c : ResourceClass) : List String :=
  "__construct" :: c.properties.map (fun p => getterOf p.name) ++
    "jsonSerialize" :: c.routes.map (·.id)

/-- The member variables of a client. -/
def clientMembers (c : ClientClass) : List String :=
  ["apiBaseUrl", "httpClient"] ++ (if c.usesBearerToken then ["bearerToken"] else []) ++
    c.managers.map managerMember

theorem declares_classHeadLines (client : ClientClass) (c : GeneratedClass) (declaration : String) :
    Declares (classHeadLines client c declaration) ["apiClient"] [] := by
  have hmember := declares_member ["     * The API client", "     *"] client.name "apiClient"
    (by simp)
  simpa [classHeadLines] using Declares.around
    (headLines c.space [responseInterface] c.uses ++
      titleLines c.title [" *", " * Generated from " ++ client.information.title ++ " " ++
        client.information.version ++ "."] ++ ["class " ++ declaration, "\x7b"])
    [] (by simp) hmember arePlain_nil

theorem declares_managerLines {client : ClientClass} {c : GeneratedClass} {lines : List String}
    (h : managerLines client c = .ok lines) : Declares lines ["apiClient"] (managerMethods c) := by
  obtain ⟨methods, hmethods, h⟩ := bind_eq_ok.1 h
  obtain rfl := Except.ok.inj h
  have hconstructor := Declares.around
    (["", "    /**", "     * " ++ c.name ++ " constructor.", "     *",
      "     * @param " ++ client.name ++ " $apiClient The API client", "     */"])
    (["    \x7b", "        $this->apiClient = $apiClient;", "    \x7d"])
    (by simp) (.method "__construct" (client.name ++ " $apiClient")) (by simp)
  have hparts := ((declares_classHeadLines client c c.name).append hconstructor).append
    (declares_methodsLines hmethods)
  have hlines := Declares.around [] ["\x7d"] arePlain_nil hparts (by simp)
  simpa [managerMethods, String.append_assoc] using hlines

theorem declares_resourceStateLines (client : ClientClass) (c : ResourceClass) :
    Declares (resourceStateLines client c) (c.properties.map fun p => Name.variableName p.name)
      ["__construct"] := by
  have hempty : Declares [""] [] [] := .of_arePlain (by simp)
  have hmembers := Declares.each_member (l := c.properties) fun p _ =>
    hempty.append (declares_member _ (propertyDocType p) (Name.variableName p.name)
      (arePlain_descriptionLines p.description))
  have hconstructor := Declares.around
    (["", "    /**", "     * " ++ c.name ++ " constructor.", "     *",
      "     * @param " ++ client.name ++ " $apiClient The API client"] ++
      c.properties.map (fun p =>
        "     * @param " ++ propertyType p ++ "|null $" ++ Name.variableName p.name) ++ ["     */"])
    (["    \x7b", "        $this->apiClient = $apiClient;"] ++
      c.properties.map (fun p =>
        "        $this->" ++ Name.variableName p.name ++ " = $" ++ Name.variableName p.name ++
          ";") ++
      ["    \x7d"])
    (by simp) (.method "__construct" (client.name ++ " $apiClient" ++ Text.join ""
      (c.properties.map fun p => ", $" ++ Name.variableName p.name ++ " = null"))) (by simp)
  have hlines := hmembers.append hconstructor
  simpa [resourceStateLines, String.append_assoc, Function.comp_def] using hlines

theorem declares_resourceAccessLines (properties : List Property) :
    Declares (resourceAccessLines properties) []
      (properties.map (fun p => getterOf p.name) ++ ["jsonSerialize"]) := by
  have hgetters := Declares.each_method (l := properties) fun p _ => Declares.around
    (["", "    /**", "     * @return " ++ propertyDocType p, "     */"])
    (["    \x7b", "        return " ++ memberOf p.name ++ ";", "    \x7d"])
    (by simp) (.method (getterOf p.name) "") (by simp)
  have hjson := Declares.around
    (["", "    /**",
      "     * Field values keyed by their API names, for JSON request bodies.", "     *",
      "     * @return array", "     */"])
    (["    \x7b", "        return ["] ++ properties.map (fun p =>
      "            " ++ quote p.name ++ " => " ++ memberOf p.name ++ ",") ++
        ["        ];", "    \x7d"])
    (by simp) (.method "jsonSerialize" "") (by simp)
  have hlines := hgetters.append hjson
  simpa [resourceAccessLines, String.append_assoc] using hlines

theorem declares_resourceLines {client : ClientClass} {c : ResourceClass} {lines : List String}
    (h : resourceLines client c = .ok lines) :
    Declares lines (resourceMembers c) (resourceMethods c) := by
  obtain ⟨methods, hmethods, h⟩ := bind_eq_ok.1 h
  obtain rfl := Except.ok.inj h
  have hparts := (((declares_classHeadLines client c.toGeneratedClass
    (c.name ++ " implements \\JsonSerializable")).append
      (declares_resourceStateLines client c)).append
    (declares_resourceAccessLines c.properties)).append (declares_methodsLines hmethods)
  have hlines := Declares.around [] ["\x7d"] arePlain_nil hparts (by simp)
  simpa [resourceMembers, resourceMethods] using hlines

theorem declares_clientStateLines (c : ClientClass) :
    Declares (clientStateLines c) (clientMembers c) ["__construct"] := by
  have hbase : Declares (memberLines ["     * Base URL of the API", "     *"] "string"
      ("apiBaseUrl = " ++ quote c.baseUrl)) ["apiBaseUrl"] [] := by
    have hstart : " = ".toList <+: (" = " ++ quote c.baseUrl).toList := by simp
    have hvalue := declares_memberLines ["     * Base URL of the API", "     *"] "string"
      "apiBaseUrl" (by simp) (.inr hstart)
    simpa only [← String.append_assoc, String.reduceAppend] using hvalue
  have hhttp := declares_member ["     * The HTTP client", "     *"] "ClientInterface" "httpClient"
    (by simp)
  have hempty : Declares [""] [] [] := .of_arePlain (by simp)
  have htoken : Declares (tokenLines c ("" :: memberLines
      ["     * Bearer token sent in the Authorization header", "     *"]
        "string|null" "bearerToken"))
      (if c.usesBearerToken then ["bearerToken"] else []) [] := by
    unfold tokenLines
    split
    · exact hempty.append (declares_member _ "string|null" "bearerToken" (by simp))
    · exact .of_arePlain arePlain_nil
  have hmanagers := Declares.each_member (l := c.managers) fun m _ =>
    hempty.append (declares_member ["     * " ++ m ++ " manager", "     *"] m (managerMember m)
      (by simp))
  have htokenDoc :
      IsPlain "     * @param string|null $bearerToken Bearer token sent with every request" :=
    isPlain_ofList rfl
  have hhttpDoc : IsPlain
      "     * @param ClientInterface|null $httpClient HTTP client (a Guzzle client by default)" :=
    isPlain_ofList rfl
  have hset : IsPlain "        $this->httpClient = $httpClient ?: new HttpClient();" :=
    isPlain_ofList rfl
  have hconstructor := Declares.around
    (["", "    /**", "     * " ++ c.name ++ " constructor.", "     *"] ++
      tokenLines c
        ["     * @param string|null $bearerToken Bearer token sent with every request"] ++
      ["     * @param ClientInterface|null $httpClient HTTP client (a Guzzle client by default)",
       "     */"])
    (["    \x7b"] ++ tokenLines c ["        $this->bearerToken = $bearerToken;"] ++
      ["        $this->httpClient = $httpClient ?: new HttpClient();"] ++
      c.managers.map (fun m =>
        "        $this->" ++ managerMember m ++ " = new " ++ m ++ "($this);") ++ ["    \x7d"])
    (by simp [htokenDoc, hhttpDoc])
    (.method "__construct" ((if c.usesBearerToken then "$bearerToken = null, " else "") ++
      "ClientInterface $httpClient = null")) (by simp [hset])
  have hlines := ((((hbase.append hempty).append hhttp).append htoken).append hmanagers).append
    hconstructor
  simpa [clientStateLines, clientMembers, String.append_assoc] using hlines

end Lines

end Php

/-- Two names have variables of the same letters and digits. -/
def Name.SameLetters (a b : String) : Prop :=
  (parts a).flatten = (parts b).flatten ∧ (parts a = [ownWord] ↔ parts b = [ownWord])

instance (a b : String) : Decidable (Name.SameLetters a b) := inferInstanceAs (Decidable (_ ∧ _))

namespace Library

/-- Nothing is declared twice in a class, where methods are the same whatever their case. -/
structure DeclaresOnce (l : Library) : Prop where
  resourceMembers : ∀ c ∈ l.resources, (Php.resourceMembers c).Nodup
  resourceMethods : ∀ c ∈ l.resources, ((Php.resourceMethods c).map String.toLower).Nodup
  managerMethods : ∀ c ∈ l.managers, ((Php.managerMethods c).map String.toLower).Nodup
  clientMembers : (Php.clientMembers l.client).Nodup

/-- No method has a name that the class needs itself, and methods differ in more than their case. -/
structure MethodsApart (routes : List Route) (own : List String) : Prop where
  own : ∀ m ∈ routes, m.id.toLower ∉ own
  each : ∀ m ∈ routes, ∀ m' ∈ routes, m.id.toLower = m'.id.toLower → m.id = m'.id

/-- No property has the variable of the client, properties differ in more than where their words
begin, and no method has the name of a getter. -/
structure PropertiesApart (c : ResourceClass) : Prop where
  client : ∀ p ∈ c.properties, Name.parts p.name ≠ ["api".toList, "client".toList]
  each : ∀ p ∈ c.properties, ∀ q ∈ c.properties, Name.SameLetters p.name q.name → p.name = q.name
  getters : ∀ p ∈ c.properties, ∀ m ∈ c.routes,
    m.id.toLower ≠ "get" ++ (Name.variableName p.name).toLower

/-- The names that a library takes from its description differ where it matters. -/
structure NamesDiffer (l : Library) : Prop where
  properties : ∀ c ∈ l.resources, PropertiesApart c
  resources : ∀ c ∈ l.resources, MethodsApart c.routes ["__construct", "jsonserialize"]
  managers : ∀ c ∈ l.managers, MethodsApart c.routes ["__construct"]
  client : ∀ a ∈ l.managers, ∀ b ∈ l.managers, Name.parts a.name = Name.parts b.name →
    a.name = b.name

/-- What is read off names that differ is different, too, unless it is read off two of them. -/
theorem nodup_read_iff {α β γ : Type} {l : List α} {name : α → β} (h : (l.map name).Nodup)
    (read : β → γ) : (l.map fun a => read (name a)).Nodup ↔
      ∀ a ∈ l, ∀ b ∈ l, read (name a) = read (name b) → name a = name b := by
  have hmap : (l.map fun a => read (name a)) = (l.map name).map read := by
    rw [List.map_map]
    rfl
  rw [hmap, List.nodup_map_iff_inj_on h]
  simp

theorem nodup_managerMethods_iff {c : GeneratedClass} (h : (c.routes.map (·.id)).Nodup) :
    ((Php.managerMethods c).map String.toLower).Nodup ↔ MethodsApart c.routes ["__construct"] := by
  have hfixed : "__construct".toLower = "__construct" := by decide +kernel
  have heq : (Php.managerMethods c).map String.toLower =
      "__construct" :: c.routes.map fun m => m.id.toLower := by
    simp [Php.managerMethods, hfixed, Function.comp_def]
  rw [heq, List.nodup_cons, nodup_read_iff h String.toLower]
  constructor
  · rintro ⟨hown, heach⟩
    exact ⟨fun m hm hmem => hown (List.mem_map.2 ⟨m, hm, List.mem_singleton.1 hmem⟩), heach⟩
  · rintro ⟨hown, heach⟩
    refine ⟨fun hmem => ?_, heach⟩
    obtain ⟨m, hm, hid⟩ := List.mem_map.1 hmem
    exact hown m hm (List.mem_singleton.2 hid)

theorem variableName_apiClient : Name.variableName "api_client" = "apiClient" := by decide +kernel

theorem nodup_resourceMembers_iff {c : ResourceClass} (h : (c.properties.map (·.name)).Nodup) :
    (Php.resourceMembers c).Nodup ↔
      (∀ p ∈ c.properties, Name.parts p.name ≠ ["api".toList, "client".toList]) ∧
      ∀ p ∈ c.properties, ∀ q ∈ c.properties, Name.parts p.name = Name.parts q.name →
        p.name = q.name := by
  have hclient (name : String) : Name.variableName name = "apiClient" ↔
      Name.parts name = ["api".toList, "client".toList] := by
    have hparts : Name.parts "api_client" = ["api".toList, "client".toList] := by decide +kernel
    rw [← variableName_apiClient, Name.variableName_eq_iff, hparts]
  rw [Php.resourceMembers, List.nodup_cons, nodup_read_iff h Name.variableName]
  simp [hclient, Name.variableName_eq_iff]

/-- The getters of a resource differ exactly if its properties differ in their letters. -/
theorem nodup_getters_iff {c : ResourceClass} (h : (c.properties.map (·.name)).Nodup) :
    (c.properties.map fun p => "get" ++ (Name.variableName p.name).toLower).Nodup ↔
      ∀ p ∈ c.properties, ∀ q ∈ c.properties, Name.SameLetters p.name q.name → p.name = q.name := by
  rw [nodup_read_iff h fun name => "get" ++ (Name.variableName name).toLower]
  simp [String.append_right_inj, Name.toLower_variableName_eq_iff, Name.SameLetters]

theorem nodup_resourceMethods_iff {c : ResourceClass} (h : (c.properties.map (·.name)).Nodup)
    (hids : (c.routes.map (·.id)).Nodup) :
    ((Php.resourceMethods c).map String.toLower).Nodup ↔
      MethodsApart c.routes ["__construct", "jsonserialize"] ∧
      (∀ p ∈ c.properties, ∀ q ∈ c.properties, Name.SameLetters p.name q.name → p.name = q.name) ∧
      ∀ p ∈ c.properties, ∀ m ∈ c.routes,
        m.id.toLower ≠ "get" ++ (Name.variableName p.name).toLower := by
  have hfixed :
      "__construct".toLower = "__construct" ∧ "jsonSerialize".toLower = "jsonserialize" := by
    decide +kernel
  have hget (rest : String) : "get" ++ rest ≠ "__construct" ∧ "get" ++ rest ≠ "jsonserialize" := by
    simp [← String.toList_inj]
  have heq : (Php.resourceMethods c).map String.toLower = "__construct" ::
      ((c.properties.map fun p => "get" ++ (Name.variableName p.name).toLower) ++
        "jsonserialize" :: c.routes.map fun m => m.id.toLower) := by
    simp [Php.resourceMethods, hfixed, Function.comp_def, Name.toLower_getterOf]
  rw [heq, List.nodup_cons, List.nodup_append', List.nodup_cons, nodup_getters_iff h,
    nodup_read_iff hids String.toLower]
  simp only [List.mem_append, List.mem_cons, List.mem_map, not_or, not_exists, not_and,
    List.disjoint_cons_right]
  constructor
  · rintro ⟨⟨-, -, hconstruct⟩, heach, ⟨hjson, hroutes⟩, -, hget⟩
    refine ⟨⟨fun m hm hmem => ?_, hroutes⟩, heach, fun p hp m hm hsame => ?_⟩
    · rcases List.mem_pair.1 hmem with hid | hid
      · exact hconstruct m hm hid
      · exact hjson m hm hid
    · exact hget (List.mem_map.2 ⟨p, hp, rfl⟩) (List.mem_map.2 ⟨m, hm, hsame⟩)
  · rintro ⟨⟨hown, hroutes⟩, heach, hgetters⟩
    refine ⟨⟨fun p _ => (hget _).1, by decide, fun m hm hid => ?_⟩, heach,
      ⟨fun m hm hid => ?_, hroutes⟩, fun p _ => (hget _).2, fun name hname hmem => ?_⟩
    · exact hown m hm (by simp [hid])
    · exact hown m hm (by simp [hid])
    · obtain ⟨p, hp, rfl⟩ := List.mem_map.1 hname
      obtain ⟨m, hm, hid⟩ := List.mem_map.1 hmem
      exact hgetters p hp m hm hid

theorem nodup_clientMembers_iff {c : ClientClass} (h : c.managers.Nodup) :
    (Php.clientMembers c).Nodup ↔
      ∀ a ∈ c.managers, ∀ b ∈ c.managers, Name.parts a = Name.parts b → a = b := by
  have hmanagers : (c.managers.map Php.managerMember).Nodup ↔
      ∀ a ∈ c.managers, ∀ b ∈ c.managers, Name.parts a = Name.parts b → a = b := by
    rw [List.nodup_map_iff_inj_on h]
    simp [Php.managerMember, String.append_left_inj, Name.variableName_eq_iff]
  -- What ends in `r` is none of the other members.
  have hlast (m : String) : (Php.managerMember m).toList.getLast? = some 'r' := by
    simp [Php.managerMember]
  have hother (name : String) (hname : name.toList.getLast? ≠ some 'r') :
      name ∉ c.managers.map Php.managerMember := by
    rintro hmem
    obtain ⟨m, -, rfl⟩ := List.mem_map.1 hmem
    exact hname (hlast m)
  have hbase := hother "apiBaseUrl" (by simp)
  have hhttp := hother "httpClient" (by simp)
  have htoken := hother "bearerToken" (by simp)
  rw [← hmanagers, Php.clientMembers]
  cases c.usesBearerToken <;> simp [hbase, hhttp, htoken]

variable {d : Description} {s : Settings} {l : Library}

/-- The properties of a resource differ as they are written. -/
theorem nodup_properties (h : (ofDescription d s).1 = .ok l) :
    ∀ c ∈ l.resources, (c.properties.map (·.name)).Nodup := by
  obtain ⟨hclassified, tagged, x, final, hparts⟩ := exists_hasParts h
  have hwrites : ({} : Build).Writes final.2 :=
    trans_of Build.Writes (Classification.writes_of_yields_addOperations hclassified) hparts.writes
  intro c hc
  have hmem :
      (c.name, c.properties) ∈ final.2.registry.entities.map fun e => (e.name, e.properties) :=
    hparts.resources ▸ List.mem_map.2 ⟨c, hc, rfl⟩
  obtain ⟨e, he, heq⟩ := List.mem_map.1 hmem
  rw [← (Prod.mk.inj heq).2]
  exact (hwrites.isProper.entity e he).properties

/-- Classes declare everything once exactly if the names of a description differ in more than what
goes lost: where the words of a property begin, and the case of a method.  What they declare are
the lines of their files. -/
theorem declaresOnce_iff (h : (ofDescription d s).1 = .ok l) :
    (l.DeclaresOnce ↔ l.NamesDiffer) ∧
      (∀ c ∈ l.resources, ∀ lines, Php.resourceLines l.client c = .ok lines →
        Php.Declares lines (Php.resourceMembers c) (Php.resourceMethods c)) ∧
      (∀ c ∈ l.managers, ∀ lines, Php.managerLines l.client c = .ok lines →
        Php.Declares lines ["apiClient"] (Php.managerMethods c)) ∧
      Php.Declares (Php.clientStateLines l.client) (Php.clientMembers l.client)
        ["__construct"] := by
  have hproperties := nodup_properties h
  have htags := followsTags_of_ok h
  have hids {kind : ClassKind} {name : String} {routes : List Route}
      (hc : l.HasClass kind name routes) : (routes.map (·.id)).Nodup := by
    rw [htags.ids hc]
    exact nodup_eraseDups _
  obtain ⟨-, tagged, x, final, hparts⟩ := exists_hasParts h
  have hmanagers : l.client.managers.Nodup := by
    rw [hparts.client]
    exact htags.nodup_managers
  have hclient : (Php.clientMembers l.client).Nodup ↔ ∀ a ∈ l.managers, ∀ b ∈ l.managers,
      Name.parts a.name = Name.parts b.name → a.name = b.name := by
    rw [nodup_clientMembers_iff hmanagers, hparts.client]
    simp
  refine ⟨⟨fun honce => ?_, fun hdiffer => ?_⟩,
    fun c _ lines hlines => Php.declares_resourceLines hlines,
    fun c _ lines hlines => Php.declares_managerLines hlines,
    Php.declares_clientStateLines l.client⟩
  · constructor
    case properties =>
      intro c hc
      obtain ⟨hown, -⟩ :=
        (nodup_resourceMembers_iff (hproperties c hc)).1 (honce.resourceMembers c hc)
      obtain ⟨-, heach, hgetters⟩ := (nodup_resourceMethods_iff (hproperties c hc)
        (hids (.resource hc))).1 (honce.resourceMethods c hc)
      exact ⟨hown, heach, hgetters⟩
    case resources =>
      intro c hc
      exact ((nodup_resourceMethods_iff (hproperties c hc) (hids (.resource hc))).1
        (honce.resourceMethods c hc)).1
    case managers =>
      intro c hc
      exact (nodup_managerMethods_iff (hids (.manager hc))).1 (honce.managerMethods c hc)
    case client => exact hclient.1 honce.clientMembers
  · constructor
    case resourceMembers =>
      intro c hc
      have hapart := hdiffer.properties c hc
      refine (nodup_resourceMembers_iff (hproperties c hc)).2
        ⟨hapart.client, fun p hp q hq hsame => ?_⟩
      exact hapart.each p hp q hq ⟨by rw [hsame], by rw [hsame]⟩
    case resourceMethods =>
      intro c hc
      have hapart := hdiffer.properties c hc
      exact (nodup_resourceMethods_iff (hproperties c hc) (hids (.resource hc))).2
        ⟨hdiffer.resources c hc, hapart.each, hapart.getters⟩
    case managerMethods =>
      intro c hc
      exact (nodup_managerMethods_iff (hids (.manager hc))).2 (hdiffer.managers c hc)
    case clientMembers => exact hclient.2 hdiffer.client

/-- A pet with an owner and with another property. -/
def petMembers (other : String) : Document := .ofValue <| .map 0 [
  (.str "openapi", .str "3.0.0"),
  (.str "info", .map 1 [(.str "title", .str "Pets"), (.str "version", .str "1")]),
  (.str "paths", .map 2 [(.str "/pets", .map 3 [(.str "get", .map 4 [
    (.str "operationId", .str "getPet"),
    (.str "tags", .seq [.str "Resource:Pet"]),
    (.str "responses", .map 5 [(.str "200", .map 6 [(.str "description", .str "A pet"),
      (.str "content", .map 7 [(.str "application/json", .map 8 [
        (.str "schema", Schema.referenceTo (.str "#/components/schemas/Pet"))])])])])])])]),
  (.str "components", .map 9 [(.str "schemas", .map 10 [(.str "Pet", .map 11 [
    (.str "type", .str "object"), (.str "properties", .map 12 [
      (.str "ownerId", .map 13 [(.str "type", .str "string")]),
      (.str other, .map 14 [(.str "type", .str "string")])])])])])]

/-- The managers, and the properties and the methods of each resource, as they are written. -/
def memberNames (l : Library) : List (List String × List String) :=
  (l.managers.map (·.name), []) ::
    l.resources.map fun c => (c.properties.map (·.name), c.routes.map (·.id))

theorem memberNames_petMembers (other : String) (h : other ∈ ["owner_id", "name"]) :
    ofFirstMethod (petMembers other) (fun l _ => memberNames l) =
      some (.resource, "Pet", [([], []), (["ownerId", other], ["getPet"])]) := by
  rcases List.mem_pair.1 h with rfl | rfl
  · decide +kernel
  · decide +kernel

/-- The resource `Pet` declares a variable for `ownerId` and the same one for `owner_id`. -/
theorem not_declaresOnce_petMembers : ∃ d l,
    Description.ofDocument (petMembers "owner_id") "3.0.0" = .ok d ∧
      (ofDescription d {}).1 = .ok l ∧ ¬ l.DeclaresOnce := by
  obtain ⟨d, l, m, hd, hl, -, hnames⟩ := exists_of_ofFirstMethod
    (memberNames_petMembers "owner_id" (by decide))
  obtain ⟨-, hresources⟩ := List.cons.inj hnames
  refine ⟨d, l, hd, hl, fun honce => ?_⟩
  obtain ⟨c, hc, heq⟩ := List.mem_map.1 (hresources ▸ List.mem_singleton_self _)
  have hmembers : (c.properties.map fun p => Name.variableName p.name) =
      ["ownerId", "owner_id"].map Name.variableName := by
    rw [← (Prod.mk.inj heq).1, List.map_map]
    rfl
  have honce := honce.resourceMembers c hc
  rw [Php.resourceMembers, hmembers] at honce
  exact absurd honce (by decide +kernel)

/-- Where the other property is the name, the resource declares everything once. -/
theorem declaresOnce_petMembers : ∃ d l, (ofDescription d {}).1 = .ok l ∧ l.DeclaresOnce ∧
    l.resources.length = 1 := by
  obtain ⟨d, l, m, -, hl, -, hnames⟩ := exists_of_ofFirstMethod
    (memberNames_petMembers "name" (by decide))
  obtain ⟨hmanagers, hresources⟩ := List.cons.inj hnames
  have hnone : l.managers = [] := List.map_eq_nil_iff.1 (Prod.mk.inj hmanagers).1
  have hsame {c : ResourceClass} (hc : c ∈ l.resources) :
      c.properties.map (·.name) = ["ownerId", "name"] ∧ c.routes.map (·.id) = ["getPet"] := by
    have hmem := hresources ▸ List.mem_map_of_mem hc
    exact Prod.mk.inj (List.mem_singleton.1 hmem)
  have hproperty {c : ResourceClass} (hc : c ∈ l.resources) {p : Property} (hp : p ∈ c.properties) :
      p.name ∈ ["ownerId", "name"] :=
    (hsame hc).1 ▸ List.mem_map_of_mem hp
  have hmethod {c : ResourceClass} (hc : c ∈ l.resources) {m : Route} (hm : m ∈ c.routes) :
      m.id = "getPet" :=
    List.mem_singleton.1 ((hsame hc).2 ▸ List.mem_map_of_mem hm)
  have hnames : (∀ a ∈ ["ownerId", "name"], Name.parts a ≠ ["api".toList, "client".toList]) ∧
      (∀ a ∈ ["ownerId", "name"], ∀ b ∈ ["ownerId", "name"], Name.SameLetters a b → a = b) ∧
      (∀ a ∈ ["ownerId", "name"], "getPet".toLower ≠ "get" ++ (Name.variableName a).toLower) ∧
      "getPet".toLower ∉ ["__construct", "jsonserialize"] := by
    decide +kernel
  obtain ⟨hclient, heach, hgetters, hown⟩ := hnames
  have hdiffer : l.NamesDiffer := by
    constructor
    case properties =>
      intro c hc
      refine ⟨fun p hp => hclient _ (hproperty hc hp), fun p hp q hq =>
        heach _ (hproperty hc hp) _ (hproperty hc hq), fun p hp m hm => ?_⟩
      rw [hmethod hc hm]
      exact hgetters _ (hproperty hc hp)
    case resources =>
      intro c hc
      refine ⟨fun m hm => ?_, fun m hm m' hm' _ => by rw [hmethod hc hm, hmethod hc hm']⟩
      rw [hmethod hc hm]
      exact hown
    case managers => simp [hnone]
    case client => simp [hnone]
  exact ⟨d, l, hl, (declaresOnce_iff hl).1.2 hdiffer,
    by simpa using congrArg List.length hresources⟩

end Library

end OpenApiClient
