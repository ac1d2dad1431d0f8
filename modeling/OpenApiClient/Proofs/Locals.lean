import Mathlib.Data.List.Basic
import Mathlib.Logic.Function.Basic
import OpenApiClient.Php.Method
import OpenApiClient.Proofs.Ordering
import OpenApiClient.Proofs.Variables

/-!
# The arguments of a method and its own variables

A method puts its request together in variables of its own: `$routePath`, then `$queryParameters`,
then `$bodyParameters`.  Nothing keeps them apart from the variables of its parameters, and a
parameter is read after some of them have been assigned.

`opening` holds the statements that a method starts with, and `run` what they do to its variables.
Each of them changes one variable and leaves the others as they are; so where a parameter is stored,
a variable that has not been assigned yet holds what the caller has passed, and one that has been
assigned does not.  Whether this spoils an argument depends on names alone: `keepsArguments_iff`.
-/

namespace OpenApiClient.Php

open Text

/-- What a variable holds while a method runs: a value from outside, none for null, or something
that the method has put together. -/
inductive Held (α : Type) where
  | outside (value : Option α)
  | path
  | table (entries : List (String × Held α))

namespace Held

variable {α : Type}

/-- Whether a variable holds null. -/
def isNull : Held α → Bool
  | outside none => true
  | _ => false

/-- What a variable holds once a value has been stored in it under a name. -/
def store (name : String) (value : Held α) : Held α → Held α
  | table entries =>
    if entries.any (·.1 == name) then
      table (entries.map fun e => if e.1 == name then (name, value) else e)
    else table (entries ++ [(name, value)])
  | _ => table [(name, value)]

/-- What is held has been put together by the method. -/
def IsOwn : Held α → Prop
  | outside _ => False
  | _ => True

theorem isOwn_store (name : String) (value held : Held α) : (held.store name value).IsOwn := by
  unfold store
  split
  · split <;> trivial
  · trivial

theorem not_isOwn_outside (value : Option α) : ¬ (outside value).IsOwn := id

end Held

/-- What the variables of a method hold. -/
abbrev Locals (α : Type) := String → Held α

/-- What the value of a parameter is read from: a variable of the method, or the object. -/
inductive Operand where
  | own (name : String)
  | member (expression : String)

/-- Where a parameter is read. -/
def operandOf (p : Parameter) : Operand :=
  match p.source with
  | .argument => .own p.variableName
  | .ownId => .member (parameterValue p)
  | .property name _ =>
    if name.isEmpty then .own p.variableName else .member (parameterValue p)

namespace Operand

/-- An operand as it is written. -/
def text : Operand → String
  | own name => "$" ++ name
  | member expression => expression

/-- What an operand gives; the object gives the same all the time. -/
def read {α : Type} (object : String → Option α) (σ : Locals α) : Operand → Held α
  | own name => σ name
  | member expression => .outside (object expression)

end Operand

theorem text_operandOf (p : Parameter) : (operandOf p).text = parameterValue p := by
  unfold operandOf
  split
  · next h => rw [parameterValue, h]; rfl
  · rfl
  · next h =>
      split
      · next hname => rw [parameterValue, h, valueOf, if_pos hname]; rfl
      · rfl

/-- The statements by which a method collects what it sends. -/
inductive Statement where
  /-- `$routePath` is assigned the path of the request. -/
  | assignPath (params : List (String × Parameter)) (path : String)
  /-- A variable is assigned an empty table. -/
  | clear (table : String)
  /-- A parameter is stored in a table under its name, an optional one unless it is null. -/
  | store (table : String) (p : Parameter)

namespace Statement

/-- A statement as it is written. -/
def lines : Statement → List String
  | assignPath params path => ["        $routePath = " ++ requestPath params path ++ ";"]
  | clear table => ["", "        $" ++ table ++ " = [];"]
  | store table p =>
    let operand := (operandOf p).text
    let assignment := "$" ++ table ++ "[" ++ quote p.name ++ "] = " ++ operand ++ ";"
    if p.required then ["        " ++ assignment]
    else
      ["        if (!is_null(" ++ operand ++ ")) \x7b", "            " ++ assignment,
        "        \x7d"]

theorem lines_store (table : String) (p : Parameter) :
    (store table p).lines = storeLines ("$" ++ table) p := by
  rw [lines, text_operandOf]
  rfl

/-- The variable that a statement changes, if it changes one. -/
def target : Statement → String
  | assignPath _ _ => "routePath"
  | clear table => table
  | store table _ => table

variable {α : Type}

/-- What a statement does to the variables. -/
def run (object : String → Option α) (σ : Locals α) : Statement → Locals α
  | assignPath _ _ => Function.update σ "routePath" .path
  | clear table => Function.update σ table (.table [])
  | store table p =>
    let value := (operandOf p).read object σ
    if p.required || !value.isNull then
      Function.update σ table ((σ table).store p.name value)
    else σ

/-- The parameter that a statement stores, with what is read for it. -/
def reading (object : String → Option α) (σ : Locals α) : Statement → List (Parameter × Held α)
  | store _ p => [(p, (operandOf p).read object σ)]
  | _ => []

/-- A statement changes no variable but its own. -/
theorem run_of_ne (object : String → Option α) (σ : Locals α) {s : Statement} {name : String}
    (h : name ≠ s.target) : s.run object σ name = σ name := by
  cases s with
  | assignPath params path => exact Function.update_of_ne h _ _
  | clear table => exact Function.update_of_ne h _ _
  | store table p =>
      unfold run
      dsimp only
      split
      · exact Function.update_of_ne h _ _
      · rfl

/-- What a method has put together does not give way to a value from outside. -/
theorem isOwn_run (object : String → Option α) {σ : Locals α} {name : String}
    (h : (σ name).IsOwn) (s : Statement) : (s.run object σ name).IsOwn := by
  by_cases hname : name = s.target
  · subst hname
    cases s with
    | assignPath params path => simp only [run, target, Function.update_self]; trivial
    | clear table => simp only [run, target, Function.update_self]; trivial
    | store table p =>
        unfold run
        dsimp only
        split
        · rw [target, Function.update_self]
          exact Held.isOwn_store _ _ _
        · exact h
  · rw [run_of_ne object σ hname]
    exact h

end Statement

section Run

variable {α : Type}

/-- What statements do to the variables, one after the other. -/
def run (object : String → Option α) (σ : Locals α) (statements : List Statement) : Locals α :=
  statements.foldl (Statement.run object) σ

/-- The parameters that statements store, each with what is read for it at its place. -/
def readings (object : String → Option α) : Locals α → List Statement → List (Parameter × Held α)
  | _, [] => []
  | σ, s :: rest => s.reading object σ ++ readings object (s.run object σ) rest

theorem readings_append (object : String → Option α) (σ : Locals α) (ss ss' : List Statement) :
    readings object σ (ss ++ ss') =
      readings object σ ss ++ readings object (run object σ ss) ss' := by
  induction ss generalizing σ with
  | nil => rfl
  | cons s ss ih => rw [List.cons_append, readings, readings, ih, List.append_assoc]; rfl

/-- The method has assigned some of its variables and none of the others. -/
structure Leaves (taken : List String) (σ τ : Locals α) : Prop where
  own : ∀ name ∈ taken, (τ name).IsOwn
  kept : ∀ name, name ∉ taken → τ name = σ name

namespace Leaves

variable {taken : List String} {σ τ : Locals α} {table : String}

theorem start (σ : Locals α) : Leaves [] σ σ := ⟨nofun, fun _ _ => rfl⟩

/-- A variable that is assigned is taken. -/
theorem assign (h : Leaves taken σ τ) (object : String → Option α) (s : Statement)
    (hs : (s.run object τ s.target).IsOwn) :
    Leaves (s.target :: taken) σ (s.run object τ) where
  own name hname := by
    rcases List.mem_cons.1 hname with rfl | hname
    · exact hs
    · exact Statement.isOwn_run object (h.own name hname) s
  kept name hname := by
    obtain ⟨hne, hname⟩ := not_or.1 (mt List.mem_cons.2 hname)
    rw [Statement.run_of_ne object τ hne]
    exact h.kept name hname

theorem assignPath (h : Leaves taken σ τ) (object : String → Option α)
    (params : List (String × Parameter)) (path : String) :
    Leaves ("routePath" :: taken) σ ((Statement.assignPath params path).run object τ) := by
  refine h.assign object (.assignPath params path) ?_
  rw [Statement.run, Statement.target, Function.update_self]
  trivial

theorem clear (h : Leaves taken σ τ) (object : String → Option α) (table : String) :
    Leaves (table :: taken) σ ((Statement.clear table).run object τ) := by
  refine h.assign object (.clear table) ?_
  rw [Statement.run, Statement.target, Function.update_self]
  trivial

/-- Storing in a table that is taken takes no other variable. -/
theorem store (h : Leaves taken σ τ) (object : String → Option α) (htable : table ∈ taken)
    (p : Parameter) :
    Leaves taken σ ((Statement.store table p).run object τ) where
  own name hname := Statement.isOwn_run object (h.own name hname) _
  kept name hname := by
    have hne : name ≠ table := by
      intro heq
      rw [heq] at hname
      exact hname htable
    rw [Statement.run_of_ne object τ hne]
    exact h.kept name hname

theorem run_stores (h : Leaves taken σ τ) (object : String → Option α) (htable : table ∈ taken)
    (ps : List Parameter) :
    Leaves taken σ (run object τ (ps.map (.store table))) := by
  induction ps generalizing τ with
  | nil => exact h
  | cons p ps ih => exact ih (h.store object htable p)

/-- Every parameter is read while the same variables are taken. -/
theorem forall_readings (h : Leaves taken σ τ) (object : String → Option α)
    (htable : table ∈ taken) (ps : List Parameter) (P : Parameter → Held α → Prop) :
    (∀ p ∈ ps, ∀ τ', Leaves taken σ τ' → P p ((operandOf p).read object τ')) →
      ∀ e ∈ readings object τ (ps.map (.store table)), P e.1 e.2 := by
  induction ps generalizing τ with
  | nil => exact fun _ => nofun
  | cons p ps ih =>
      intro hread e he
      rcases List.mem_cons.1 he with rfl | he
      · exact hread p List.mem_cons_self τ h
      · exact ih (h.store object htable p) (fun q hq => hread q (List.mem_cons_of_mem p hq)) e he

theorem exists_reading (h : Leaves taken σ τ) (object : String → Option α)
    (htable : table ∈ taken) {ps : List Parameter} {p : Parameter} (hp : p ∈ ps) :
    ∃ τ', Leaves taken σ τ' ∧
      (p, (operandOf p).read object τ') ∈ readings object τ (ps.map (.store table)) := by
  induction ps generalizing τ with
  | nil => cases hp
  | cons q ps ih =>
      rcases List.mem_cons.1 hp with rfl | hp
      · exact ⟨τ, h, List.mem_cons_self⟩
      · obtain ⟨τ', hτ', hmem⟩ := ih (h.store object htable q) hp
        exact ⟨τ', hτ', List.mem_cons_of_mem _ hmem⟩

end Leaves

end Run

end OpenApiClient.Php

namespace OpenApiClient.Route

open Php

/-- The statements that a method starts with. -/
def opening (m : Route) : List Statement :=
  .assignPath m.pathParameters m.operation.path :: .clear "queryParameters" ::
    ((m.queryParameters.map (·.2)).map (.store "queryParameters") ++
      Statement.clear "bodyParameters" ::
        (m.bodyParameters.map (·.2)).map (.store "bodyParameters"))

/-- What a method is written with starts with these statements. -/
theorem opening_prefix (m : Route) (unexpected : String) :
    m.opening.flatMap Statement.lines <+: statementLines m unexpected := by
  have hquery : "$" ++ "queryParameters" = "$queryParameters" := by decide
  have hbody : "$" ++ "bodyParameters" = "$bodyParameters" := by decide
  have hclear : "        $" ++ "queryParameters" ++ " = [];" = "        $queryParameters = [];" ∧
      "        $" ++ "bodyParameters" ++ " = [];" = "        $bodyParameters = [];" := by decide
  simp only [opening, statementLines, List.flatMap_cons, List.flatMap_append, List.flatMap_map,
    Statement.lines_store, hquery, hbody, List.append_assoc, List.cons_append, List.nil_append]
  simp only [Statement.lines, hclear, List.cons_append, List.nil_append, List.cons_prefix_cons,
    true_and, List.prefix_append_right_inj, List.prefix_append]

/-- The variables that are assigned when the parameters of the query are stored. -/
def takenFromQuery : List String := ["queryParameters", "routePath"]

/-- The variables that are assigned when the fields of the body are stored. -/
def takenFromBody : List String := "bodyParameters" :: takenFromQuery

theorem mem_takenFromQuery : "queryParameters" ∈ takenFromQuery := List.mem_cons_self

theorem mem_takenFromBody : "bodyParameters" ∈ takenFromBody := List.mem_cons_self

/-- Wherever a method stores an argument, it reads what the caller has passed, whatever that is and
whatever the object holds. -/
def KeepsArguments (m : Route) : Prop :=
  ∀ (α : Type) (object passed : String → Option α),
    ∀ e ∈ readings object (fun name => .outside (passed name)) m.opening,
      e.1.isArgument = true → e.2 = .outside (passed e.1.variableName)

theorem read_operandOf {α : Type} {p : Parameter} (h : p.isArgument = true)
    (object : String → Option α) (σ : Locals α) :
    (operandOf p).read object σ = σ p.variableName := by
  rw [operandOf, of_decide_eq_true h]
  rfl

section Reading

variable {α : Type} {object : String → Option α} {σ τ : Locals α} {taken : List String}
  {p : Parameter}

/-- What is read from a variable that is taken has been put together by the method. -/
theorem notMem_of_read (hτ : Leaves taken σ τ) (harg : p.isArgument = true) {value : Option α}
    (hread : (operandOf p).read object τ = .outside value) : p.variableName ∉ taken := by
  intro htaken
  have hown := hτ.own p.variableName htaken
  rw [read_operandOf harg] at hread
  rw [hread] at hown
  exact Held.not_isOwn_outside value hown

/-- What is read from a variable that is not taken is what it held at first. -/
theorem read_of_notMem (hτ : Leaves taken σ τ) (harg : p.isArgument = true)
    (hfree : p.variableName ∉ taken) : (operandOf p).read object τ = σ p.variableName := by
  rw [read_operandOf harg]
  exact hτ.kept p.variableName hfree

end Reading

/-- What has been assigned when the parameters of the query and the fields of the body are
stored. -/
theorem exists_leaves (m : Route) {α : Type} (object : String → Option α) (σ : Locals α) :
    ∃ τ τ', Leaves takenFromQuery σ τ ∧ Leaves takenFromBody σ τ' ∧
      readings object σ m.opening =
        readings object τ ((m.queryParameters.map (·.2)).map (.store "queryParameters")) ++
          readings object τ' ((m.bodyParameters.map (·.2)).map (.store "bodyParameters")) := by
  have hpath := (Leaves.start σ).assignPath object m.pathParameters m.operation.path
  have hquery := hpath.clear object "queryParameters"
  have hstored := hquery.run_stores object mem_takenFromQuery (m.queryParameters.map (·.2))
  refine ⟨_, _, hquery, hstored.clear object "bodyParameters", ?_⟩
  rw [opening, readings, readings, readings_append]
  rfl

/-- Arguments are kept exactly if no variable of the method is theirs when they are stored. -/
theorem keepsArguments_iff_variableName (m : Route) : m.KeepsArguments ↔
    (∀ q ∈ m.queryParameters, q.2.isArgument = true → q.2.variableName ∉ takenFromQuery) ∧
      ∀ q ∈ m.bodyParameters, q.2.isArgument = true → q.2.variableName ∉ takenFromBody := by
  constructor
  · intro hkeeps
    -- Any caller and any object tell which variables are read too late.
    let object : String → Option Unit := fun _ => none
    let passed : String → Option Unit := fun _ => none
    obtain ⟨τ, τ', hτ, hτ', hreadings⟩ := m.exists_leaves object fun name => .outside (passed name)
    constructor
    · intro q hq harg
      obtain ⟨τ₁, hτ₁, hmem⟩ := hτ.exists_reading object mem_takenFromQuery
        (List.mem_map_of_mem hq)
      have hread := hkeeps Unit object passed _ (hreadings ▸ List.mem_append_left _ hmem) harg
      exact notMem_of_read hτ₁ harg hread
    · intro q hq harg
      obtain ⟨τ₁, hτ₁, hmem⟩ := hτ'.exists_reading object mem_takenFromBody
        (List.mem_map_of_mem hq)
      have hread := hkeeps Unit object passed _ (hreadings ▸ List.mem_append_right _ hmem) harg
      exact notMem_of_read hτ₁ harg hread
  · rintro ⟨hquery, hbody⟩ α object passed e he harg
    obtain ⟨τ, τ', hτ, hτ', hreadings⟩ := m.exists_leaves object fun name => .outside (passed name)
    let Kept : Parameter → Held α → Prop := fun p held =>
      p.isArgument = true → held = .outside (passed p.variableName)
    rw [hreadings] at he
    rcases List.mem_append.1 he with he | he
    · refine hτ.forall_readings object mem_takenFromQuery _ Kept (fun p hp τ₁ hτ₁ harg => ?_) e he
        harg
      obtain ⟨q, hq, rfl⟩ := List.mem_map.1 hp
      exact read_of_notMem hτ₁ harg (hquery q hq harg)
    · refine hτ'.forall_readings object mem_takenFromBody _ Kept (fun p hp τ₁ hτ₁ harg => ?_) e he
        harg
      obtain ⟨q, hq, rfl⟩ := List.mem_map.1 hp
      exact read_of_notMem hτ₁ harg (hbody q hq harg)

end OpenApiClient.Route

namespace OpenApiClient.Name

/-- The variable of a name is none of those of some names exactly if its parts are not theirs. -/
theorem variableName_notMem_map_iff {name : String} {names : List String} :
    variableName name ∉ names.map variableName ↔ ∀ own ∈ names, parts name ≠ parts own := by
  rw [List.mem_map, not_exists]
  refine forall_congr' fun own => ?_
  rw [not_and, variableName_eq_iff, eq_comm]

end OpenApiClient.Name

namespace OpenApiClient.Library

open Route

variable {name : String} {m : Route}

theorem variableName_notMem_takenFromQuery :
    Name.variableName name ∉ takenFromQuery ↔
      ∀ own ∈ ["query_parameters", "route_path"], Name.parts name ≠ Name.parts own := by
  have htaken : takenFromQuery = ["query_parameters", "route_path"].map Name.variableName := by
    decide +kernel
  rw [htaken, Name.variableName_notMem_map_iff]

theorem variableName_notMem_takenFromBody :
    Name.variableName name ∉ takenFromBody ↔
      ∀ own ∈ ["body_parameters", "query_parameters", "route_path"],
        Name.parts name ≠ Name.parts own := by
  have htaken : takenFromBody =
      ["body_parameters", "query_parameters", "route_path"].map Name.variableName := by
    decide +kernel
  rw [htaken, Name.variableName_notMem_map_iff]

/-- What a method of a library collects has the variables of its names. -/
theorem variableName_of_hasMethod {d : Description} {s : Settings} {l : Library}
    (h : (ofDescription d s).1 = .ok l) {kind : ClassKind} {className : String}
    (hm : HasMethod l kind className m) {q : String × Parameter}
    (hq : q ∈ m.queryParameters ++ m.bodyParameters) :
    q.2.variableName = Name.variableName q.2.name := by
  obtain ⟨final, hmade⟩ := exists_madeOf h
  obtain ⟨e, x, x', -, -, done, rest, -, -, hmakes, -⟩ := hmade.method hm
  obtain ⟨x₁, b, -, -, -, hquery, hbody, -⟩ := exists_of_makes hmakes
  rcases List.mem_append.1 hq with hq | hq
  · exact (Parameter.isAt_of_mem_inQuery hquery hq).variableName
  · exact (Parameter.isAt_of_mem_inBody hbody hq).variableName

/-- Every method of a library starts with its opening, and it stores what the caller has passed for
its arguments, each under its name, exactly if none of these names has the parts of the name of a
variable that the method has assigned by then. -/
theorem keepsArguments_iff {d : Description} {s : Settings} {l : Library}
    (h : (ofDescription d s).1 = .ok l) {kind : ClassKind} {className : String} {m : Route}
    (hm : HasMethod l kind className m) :
    (∀ unexpected, m.opening.flatMap Php.Statement.lines <+: Php.statementLines m unexpected) ∧
      (m.KeepsArguments ↔
        (∀ q ∈ m.queryParameters, q.2.isArgument = true →
          ∀ own ∈ ["query_parameters", "route_path"], Name.parts q.2.name ≠ Name.parts own) ∧
        ∀ q ∈ m.bodyParameters, q.2.isArgument = true →
          ∀ own ∈ ["body_parameters", "query_parameters", "route_path"],
            Name.parts q.2.name ≠ Name.parts own) := by
  refine ⟨m.opening_prefix, m.keepsArguments_iff_variableName.trans ?_⟩
  refine and_congr (forall₂_congr fun q hq => ?_) (forall₂_congr fun q hq => ?_)
  · rw [variableName_of_hasMethod h hm (List.mem_append_left _ hq),
      variableName_notMem_takenFromQuery]
  · rw [variableName_of_hasMethod h hm (List.mem_append_right _ hq),
      variableName_notMem_takenFromBody]

/-- A list of pets is asked for with one parameter in its query. -/
def petQuery (name : String) : Document := .ofValue <| .map 0 [
  (.str "openapi", .str "3.0.0"),
  (.str "info", .map 1 [(.str "title", .str "Pets"), (.str "version", .str "1")]),
  (.str "paths", .map 2 [(.str "/pets", .map 3 [(.str "get", .map 4 [
    (.str "operationId", .str "listPets"),
    (.str "tags", .seq [.str "Manager:Pets"]),
    (.str "parameters", .seq [.map 5 [(.str "name", .str name), (.str "in", .str "query"),
      (.str "schema", .map 6 [(.str "type", .str "string")])]]),
    (.str "responses", .map 7 [
      (.str "204", .map 8 [(.str "description", .str "Nothing")])])])])])]

/-- The arguments that a method collects, with their variables. -/
def collected (m : Route) : List (String × String) :=
  ((m.queryParameters ++ m.bodyParameters).filter (·.2.isArgument)).map fun q =>
    (q.2.name, q.2.variableName)

theorem mem_collected {q : String × Parameter} (hq : q ∈ m.queryParameters ++ m.bodyParameters)
    (harg : q.2.isArgument = true) : (q.2.name, q.2.variableName) ∈ collected m :=
  List.mem_map_of_mem (List.mem_filter.2 ⟨hq, harg⟩)

theorem collected_petQuery : ofFirstMethod (petQuery "limit") (fun _ m => collected m) =
    some (.manager, "Pets", [("limit", "limit")]) := by
  decide +kernel

/-- A limit is stored as it is passed. -/
theorem keepsArguments_petQuery : ∃ d l m,
    Description.ofDocument (petQuery "limit") "3.0.0" = .ok d ∧ (ofDescription d {}).1 = .ok l ∧
      HasMethod l .manager "Pets" m ∧ m.KeepsArguments := by
  obtain ⟨d, l, m, hd, hl, hm, hnames⟩ := exists_of_ofFirstMethod collected_petQuery
  have hlimit {q : String × Parameter} (hq : q ∈ m.queryParameters ++ m.bodyParameters)
      (harg : q.2.isArgument = true) : q.2.name = "limit" := by
    have hmem := mem_collected hq harg
    rw [hnames, List.mem_singleton] at hmem
    exact (Prod.mk.inj hmem).1
  refine ⟨d, l, m, hd, hl, hm, (keepsArguments_iff hl hm).2.2 ⟨?_, ?_⟩⟩
  · intro q hq harg
    rw [hlimit (List.mem_append_left _ hq) harg]
    decide +kernel
  · intro q hq harg
    rw [hlimit (List.mem_append_right _ hq) harg]
    decide +kernel

theorem collected_petQuery_routePath :
    ofFirstMethod (petQuery "route_path") (fun _ m => collected m) =
      some (.manager, "Pets", [("route_path", "routePath")]) := by
  decide +kernel

/-- The path of the request is stored where the caller's own route path belongs. -/
theorem not_keepsArguments_petQuery : ∃ d l m,
    Description.ofDocument (petQuery "route_path") "3.0.0" = .ok d ∧
      (ofDescription d {}).1 = .ok l ∧ HasMethod l .manager "Pets" m ∧ ¬ m.KeepsArguments := by
  obtain ⟨d, l, m, hd, hl, hm, hnames⟩ := exists_of_ofFirstMethod collected_petQuery_routePath
  refine ⟨d, l, m, hd, hl, hm, fun hkeeps => ?_⟩
  have hfound : ("route_path", "routePath") ∈ collected m := by
    rw [hnames]
    exact List.mem_singleton_self _
  obtain ⟨q, hq, heq⟩ := List.mem_map.1 hfound
  obtain ⟨hq, harg⟩ := List.mem_filter.1 hq
  have hvariable : q.2.variableName = "routePath" := (Prod.mk.inj heq).2
  obtain ⟨hquery, hbody⟩ := m.keepsArguments_iff_variableName.1 hkeeps
  rcases List.mem_append.1 hq with hq | hq
  · apply hquery q hq harg
    rw [hvariable]
    decide
  · apply hbody q hq harg
    rw [hvariable]
    decide

end OpenApiClient.Library
