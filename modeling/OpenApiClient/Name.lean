import OpenApiClient.Text.Basic
import OpenApiClient.Text.Letter

/-!
# Names

Names of a description become names of classes, variables and methods.  Class names are
capitalised; the *key* of a name, by which spellings of one name are recognised, is its snake
case: words in small letters joined by single underscores.  Words begin at a capital after a
small letter or digit, at the last capital of a row of capitals that a small letter follows,
and after anything that is neither letter nor digit.
-/

namespace OpenApiClient.Name

open Text

/-- ASCII small letters. -/
def isSmall (c : Char) : Bool := 'a' ≤ c && c ≤ 'z'

/-- ASCII capital letters. -/
def isCapital (c : Char) : Bool := 'A' ≤ c && c ≤ 'Z'

/-- ASCII digits. -/
def isDigit (c : Char) : Bool := '0' ≤ c && c ≤ '9'

/-- Characters of the words of a key. -/
def isWordChar (c : Char) : Bool := isSmall c || isDigit c

/-- Characters of names: ASCII letters, digits and the underscore. -/
def isNameChar (c : Char) : Bool := isSmall c || isCapital c || isDigit c || c = '_'

/-- Puts an underscore before every capital that follows a small letter or digit. -/
def splitHumps : List Char → List Char
  | a :: b :: rest =>
    if isWordChar a && isCapital b then a :: '_' :: splitHumps (b :: rest)
    else a :: splitHumps (b :: rest)
  | cs => cs

/-- Puts an underscore before a capital that stands between a capital and a small letter. -/
def splitAcronyms : List Char → List Char
  | a :: b :: c :: rest =>
    if isCapital a && isCapital b && isSmall c then a :: '_' :: splitAcronyms (b :: c :: rest)
    else a :: splitAcronyms (b :: c :: rest)
  | cs => cs

/-- A character of a key: the small letter of a letter, digits as they are, the underscore
for all others.  The Kelvin sign counts as the letter it looks like, and the dotted capital I
as the letter without its dot. -/
def keyChar (c : Char) : Char :=
  if isCapital c then Char.ofNat (c.toNat + 32)
  else if isWordChar c then c
  else if c = '\u212a' then 'k'
  else '_'

/-- The characters that a character of a name becomes in a key. -/
def keyChars (c : Char) : List Char :=
  if c = '\u0130' then ['i', '_'] else [keyChar c]

/-- The words of a name, in small letters. -/
def words (name : List Char) : List (List Char) :=
  (pieces '_' ((splitAcronyms (splitHumps name)).flatMap keyChars)).filter (!·.isEmpty)

/-- Words joined by single underscores. -/
def joinWords : List (List Char) → List Char
  | [] => []
  | [w] => w
  | w :: rest => w ++ '_' :: joinWords rest

/-- The key of a name. -/
def key (name : String) : String := String.ofList (joinWords (words name.toList))

/-- A word of small letters and digits with its first letter as a capital. -/
def capitalized : List Char → List Char
  | [] => []
  | c :: rest => (if isSmall c then Char.ofNat (c.toNat - 32) else c) :: rest

/-- Words run together, each but the first with a capital. -/
def hump : List (List Char) → List Char
  | [] => []
  | w :: rest => w ++ rest.flatMap capitalized

/-- The variable for a name: its words run together, with an underscore in front of a leading
digit and one after the name that a method keeps for its own object.  A name without words
gives `param`. -/
def variableName (name : String) : String :=
  match hump (words name.toList) with
  | [] => "param"
  | c :: rest =>
    let run := if isDigit c then '_' :: c :: rest else c :: rest
    String.ofList (if run = ['t', 'h', 'i', 's'] then run ++ ['_'] else run)

/-- What a name of the form `<word>Id` says before its ending, if it is made of ASCII
letters, digits and underscores; a line end may follow the name. -/
def idWord? (name : String) : Option String :=
  let cs := name.toList
  let cs := if cs.getLast? = some '\n' then cs.dropLast else cs
  let word := cs.take (cs.length - 2)
  if !word.isEmpty && cs.drop (cs.length - 2) = ['I', 'd'] && word.all isNameChar then
    some (String.ofList word)
  else none

/-- The runs of ASCII letters and digits in a text. -/
def alphanumericRuns (cs : List Char) : List (List Char) :=
  (pieces ' ' (cs.map fun c => if isSmall c || isCapital c || isDigit c then c else ' ')).filter
    (!·.isEmpty)

/-- The name of an operation that declares none: its method followed by the words of its path,
each with a capital. -/
def ofOperation (method path : String) : String :=
  small method ++ String.ofList ((alphanumericRuns path.toList).flatMap capitalized)

end OpenApiClient.Name
