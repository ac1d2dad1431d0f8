import OpenApiClient.Text.Basic

/-!
# Command lines

The words after the program's name say what to do: options of the program, a command, and
what the command takes.  An option with a value takes the next word, whatever it looks like,
or what follows an equals sign.  Among the words of a command, options and arguments may be
mixed; two dashes end the options.
-/

namespace OpenApiClient.CommandLine

/-- Options that words may name. -/
structure Grammar where
  /-- Options without a value. -/
  flags : List String
  /-- Options with a value. -/
  valued : List String := []
  /-- Letters that stand for options without a value. -/
  letters : List (Char × String) := []
  /-- Whether options may follow arguments. -/
  mixed : Bool := false

/-- An option as it was given, with its value if it has one. -/
structure Given where
  option : String
  value : Option String := none
  deriving DecidableEq, Repr

/-- The words of a command line once options and arguments are told apart. -/
structure Words where
  given : List Given := []
  arguments : List String := []
  deriving Repr

namespace Words

/-- One more option in front. -/
def addOption (g : Given) (w : Words) : Words := { w with given := g :: w.given }

/-- One more argument in front. -/
def addArgument (s : String) (w : Words) : Words := { w with arguments := s :: w.arguments }

/-- Whether an option was given. -/
def has (w : Words) (option : String) : Bool := w.given.any (·.option == option)

/-- The value that was given last for an option. -/
def value? (w : Words) (option : String) : Option String :=
  (w.given.reverse.find? (·.option == option)).bind (·.value)

end Words

/-- A word in front of its first equals sign, and what follows the sign. -/
def splitValue (word : String) : String × Option String :=
  match Text.pieces '=' word.toList with
  | first :: second :: rest =>
    (String.ofList first, some (Text.join "=" ((second :: rest).map String.ofList)))
  | _ => (word, none)

/-- What a word is. -/
inductive Word where
  | argument
  | ending
  | options (given : List String)
  | valued (option : String) (value : Option String)
  | unknown
  deriving DecidableEq, Repr

/-- What a word is under a grammar.  One dash in front allows for a row of letters. -/
def Grammar.classify (g : Grammar) (word : String) : Word :=
  let (name, value) := splitValue word
  if word = "--" then .ending
  else if !Text.startsWith word.toList ['-'] || word = "-" then .argument
  else if g.valued.contains name then .valued name value
  else if g.flags.contains name then
    if value.isNone then .options [name] else .unknown
  else if Text.startsWith word.toList ['-', '-'] then .unknown
  else match (word.toList.drop 1).mapM (List.lookup · g.letters) with
    | some names => .options names
    | none => .unknown

/-- Tells options and arguments apart, if every option is known and has its value. -/
def Grammar.read (g : Grammar) : List String → Option Words
  | [] => some {}
  | word :: rest =>
    match g.classify word with
    | .ending => some { arguments := rest }
    | .argument =>
      if g.mixed then (g.read rest).map (·.addArgument word)
      else some { arguments := word :: rest }
    | .options names => do
      let w ← g.read rest
      return names.foldr (fun n w => w.addOption ⟨n, none⟩) w
    | .valued option (some value) => (g.read rest).map (·.addOption ⟨option, some value⟩)
    | .valued option none =>
      match rest with
      | [] => none
      | value :: rest => (g.read rest).map (·.addOption ⟨option, some value⟩)
    | .unknown => none

/-- What the options of the program ask for. -/
structure Preferences where
  json : Bool := false
  noColor : Bool := false
  quiet : Bool := false
  verbose : Bool := false
  deriving DecidableEq, Repr

/-- What is to be done. -/
inductive Task where
  /-- Writes a library. -/
  | generate (source : String) (output space clientName templates : Option String)
      (tests strict : Bool)
  /-- Shows what a library would hold. -/
  | inspect (source : String) (space : Option String)
  deriving DecidableEq, Repr

/-- What a command line asks for. -/
inductive Request where
  | version
  | help
  | run (preferences : Preferences) (task : Task)
  deriving DecidableEq, Repr

/-- The options of the program. -/
def programGrammar : Grammar where
  flags := ["--version", "--json", "--no-color", "--quiet", "--verbose", "--help"]
  letters := [('q', "--quiet"), ('v', "--verbose")]

/-- The options of the command that writes a library. -/
def generateGrammar : Grammar where
  flags := ["--tests", "--strict-operation-ids", "--help"]
  valued := ["--client-name", "--templates"]
  mixed := true

/-- The options of the command that shows what a library would hold. -/
def inspectGrammar : Grammar where
  flags := ["--help"]
  valued := ["--namespace"]
  mixed := true

/-- The task that the words of the first command set. -/
def generateTask? (w : Words) : Option Task :=
  let task (source : String) (output space : Option String) : Task :=
    .generate source output space (w.value? "--client-name") (w.value? "--templates")
      (w.has "--tests") (w.has "--strict-operation-ids")
  match w.arguments with
  | [source] => some (task source none none)
  | [source, output] => some (task source (some output) none)
  | [source, output, space] => some (task source (some output) (some space))
  | _ => none

/-- The task that the words of the second command set. -/
def inspectTask? (w : Words) : Option Task :=
  match w.arguments with
  | [source] => some (.inspect source (w.value? "--namespace"))
  | _ => none

/-- What the words of a command ask for. -/
def commandRequest? (preferences : Preferences) (g : Grammar) (task? : Words → Option Task)
    (words : List String) : Option Request := do
  let w ← g.read words
  if w.has "--help" then return .help
  return .run preferences (← task? w)

/-- What a command line asks for, if it is one.  Version and help leave the rest unread;
of the two the one given first counts. -/
def Request.ofWords? (words : List String) : Option Request := do
  let w ← programGrammar.read words
  match w.given.find? fun g => g.option == "--version" || g.option == "--help" with
  | some g => return if g.option == "--version" then .version else .help
  | none =>
    let preferences : Preferences :=
      { json := w.has "--json", noColor := w.has "--no-color"
        quiet := w.has "--quiet", verbose := w.has "--verbose" }
    match w.arguments with
    | "generate" :: rest => commandRequest? preferences generateGrammar generateTask? rest
    | "inspect" :: rest => commandRequest? preferences inspectGrammar inspectTask? rest
    | _ => none

/-- The first words of a command line that are no options are left as they are. -/
theorem Grammar.read_argument {g : Grammar} {word : String} {rest : List String}
    (h : g.classify word = .argument) (hm : g.mixed = false) :
    g.read (word :: rest) = some { arguments := word :: rest } := by
  simp [Grammar.read, h, hm]

end OpenApiClient.CommandLine
