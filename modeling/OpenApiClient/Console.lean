import OpenApiClient.Fault
import OpenApiClient.Json.Writer
import OpenApiClient.Text.Wrap
import OpenApiClient.Value.Key

/-!
# The console

Results go to standard output, diagnostics to the error stream, so that results can be piped.
Diagnostics are bare text where colour is refused; elsewhere they pass through a markup
writer, which wraps them at the width of the console and leaves marks of its own where a
message holds backslashes.
-/

namespace OpenApiClient

/-- How results are written. -/
inductive Format where
  | json
  | plain
  | rich
  deriving DecidableEq, Repr

/-- The word for a format. -/
def Format.name : Format → String
  | .json => "json"
  | .plain => "plain"
  | .rich => "rich"

/-- The format of a word; `auto` leaves the choice to the console. -/
def Format.ofName? : String → Option Format
  | "json" => some .json
  | "plain" => some .plain
  | "rich" => some .rich
  | _ => none

/-- The two streams of a run. -/
structure Streams where
  out : String := ""
  err : String := ""
  deriving DecidableEq, Repr, Inhabited

namespace Streams

/-- The first streams and then the second. -/
def append (s t : Streams) : Streams := ⟨s.out ++ t.out, s.err ++ t.err⟩

instance : Append Streams := ⟨append⟩

end Streams

/-- What a diagnostic is about. -/
inductive Tone where
  | info
  | success
  | warning
  | error
  | debug
  deriving DecidableEq, Repr

/-- What is written in front of a diagnostic. -/
def Tone.label : Tone → String
  | .info | .success => ""
  | .warning => "Warning: "
  | .error => "Error: "
  | .debug => "[debug] "

/-- The mark that ends the style of diagnostics which are wholly in one style. -/
def Tone.closing? : Tone → Option String
  | .success => some "[/green]"
  | .debug => some "[/dim]"
  | _ => none

/-- A console: the format of results, whether diagnostics are bare, and which of them are
shown. -/
structure Console where
  format : Format
  bare : Bool := false
  quiet : Bool := false
  verbose : Bool := false
  width : Nat := 80
  deriving Repr

namespace Markup

/-- Whether what follows an opening bracket makes it a tag. -/
def opensTag : List Char → Bool
  | c :: rest =>
    (c.isLower || c = '#' || c = '/' || c = '@') &&
      (rest.find? fun d => d = '[' || d = ']') == some ']'
  | [] => false

/-- A text as it comes out of the markup writer: a backslash before a bracket is dropped
unless the bracket opens a tag. -/
def shown : List Char → List Char
  | [] => []
  | '\\' :: '[' :: rest => if opensTag rest then '\\' :: '[' :: shown rest else '[' :: shown rest
  | c :: rest => c :: shown rest

/-- The number of backslashes at the end. -/
def closingBackslashes (cs : List Char) : Nat :=
  (cs.reverse.takeWhile (· = '\\')).length

/-- A text as it comes out of the markup writer at the end of the input.  A single backslash
is doubled there. -/
def shownAtEnd (cs : List Char) : List Char :=
  shown cs ++ if closingBackslashes cs = 1 then ['\\'] else []

/-- A text as it comes out of the markup writer before a closing mark.  Backslashes before a
mark come out as half as many; one without a partner takes the mark along. -/
def shownBefore (closing : String) (cs : List Char) : List Char :=
  let n := closingBackslashes cs
  if n ≤ 1 then shown cs
  else
    shown (cs.take (cs.length - n)) ++ List.replicate (n / 2) '\\' ++
      (if n % 2 = 1 then closing.toList else [])

/-- Control characters that the markup writer drops. -/
def isDropped (c : Char) : Bool :=
  c = '\x07' || c = '\x08' || c = '\x0b' || c = '\x0c' || c = '\x0d'

end Markup

namespace Console

/-- Whether the environment refuses colour. -/
def refusesColor (environment : List (String × String)) : Bool :=
  (environment.lookup "NO_COLOR").isSome || environment.lookup "TERM" == some "dumb"

/-- The width that the environment names. -/
def widthOf (environment : List (String × String)) : Nat :=
  match (environment.lookup "COLUMNS").bind fun s =>
      if s.toList.all Char.isDigit then s.toNat? else none with
  | some (n + 1) => n + 1
  | _ => 80

/-- The format that was asked for; where none was, rich on a terminal in colour and plain
elsewhere. -/
def resolveFormat (requested : Option Format) (terminal bare : Bool) : Format :=
  requested.getD (if terminal && !bare then .rich else .plain)

/-- The console of a run. -/
def make (requested : Option Format) (noColor quiet verbose terminal : Bool)
    (environment : List (String × String)) : Console :=
  let bare := noColor || refusesColor environment
  { format := resolveFormat requested terminal bare
    bare, quiet, verbose, width := widthOf environment }

/-- Whether a diagnostic is shown. -/
def shows (c : Console) : Tone → Bool
  | .info | .success => !c.quiet
  | .warning | .error => true
  | .debug => c.verbose

/-- A diagnostic as it is written when it is shown. -/
def written (c : Console) (tone : Tone) (message : String) : String :=
  if c.bare then tone.label ++ message ++ "\n"
  else
    let text := match tone.closing? with
      | some closing => Markup.shownBefore closing (tone.label ++ message).toList
      | none => tone.label.toList ++ Markup.shownAtEnd message.toList
    let lines := Text.toLines c.width (text.filter (!Markup.isDropped ·))
    String.ofList (lines.flatMap (· ++ ['\n']))

/-- A diagnostic on the error stream. -/
def say (c : Console) (tone : Tone) (message : String) : Streams :=
  if c.shows tone then { err := c.written tone message } else {}

/-- Warnings on the error stream, and how many they are where details are shown. -/
def warn (c : Console) (messages : List String) : Streams :=
  messages.foldr (fun m s => c.say .warning m ++ s)
    (if messages.isEmpty then {}
    else c.say .debug (toString messages.length ++ " warning(s) while compiling the document"))

/-- Text on standard output. -/
def print (text : String) : Streams := { out := text ++ "\n" }

/-- A value on standard output, as JSON. -/
def printJson (v : Value) : Except Fault Streams := (Json.write v).map print

/-- A row under its headers, as a mapping.  Cells without a header are left out, and of two
headers alike the later one counts. -/
def record (headers row : List String) : Value :=
  .map 0 ((headers.zip row).foldl (fun es (h, cell) => Value.insert (.str h) (.str cell) es) [])

/-- A table on standard output: a list of mappings as JSON, otherwise lines of cells with tabs
between them. -/
def printTable (c : Console) (headers : List String) (rows : List (List String)) :
    Except Fault Streams :=
  match c.format with
  | .json => printJson (.seq (rows.map (record headers)))
  | .plain | .rich =>
    .ok (print (Text.join "\n" ((headers :: rows).map (Text.join "\t"))))

/-- The report of a finished run: a value as JSON, otherwise a message. -/
def summarize (c : Console) (summary : Value) (message : String) : Except Fault Streams :=
  match c.format with
  | .json => printJson summary
  | .plain | .rich => .ok (c.say .success message)

/-- Diagnostics never reach standard output. -/
@[simp] theorem say_out (c : Console) (tone : Tone) (message : String) :
    (c.say tone message).out = "" := by
  unfold say
  split <;> rfl

end Console

end OpenApiClient
