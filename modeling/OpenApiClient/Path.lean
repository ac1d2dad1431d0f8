import OpenApiClient.Text.Basic

/-!
# Paths

A path is a row of names below a starting point.  Empty names and names that are a single dot
lead nowhere and are dropped when a path is read; two dots lead up and stay, since where they
lead depends on what stands there.
-/

namespace OpenApiClient

/-- Where a path starts.  Two slashes in front are a starting point of their own; three or
more are one slash. -/
inductive Path.Start where
  | here
  | root
  | doubleRoot
  deriving DecidableEq, Repr, Inhabited

/-- A path. -/
structure Path where
  start : Path.Start := .here
  names : List String
  deriving DecidableEq, Repr, Inhabited

namespace Path

/-- What is written in front of the names. -/
def Start.text : Start → String
  | .here => ""
  | .root => "/"
  | .doubleRoot => "//"

/-- Whether a piece between slashes is a name. -/
def isName (piece : String) : Bool := piece != "" && piece != "."

/-- The path that a text writes. -/
def ofString (s : String) : Path :=
  let start : Start := match s.toList with
    | '/' :: '/' :: '/' :: _ => .root
    | '/' :: '/' :: _ => .doubleRoot
    | '/' :: _ => .root
    | _ => .here
  ⟨start, (Text.cut '/' s).filter isName⟩

/-- The text of a path; a path without names that starts here is a dot. -/
def text (p : Path) : String :=
  if p.start = .here && p.names.isEmpty then "." else p.start.text ++ Text.join "/" p.names

/-- The second path, started where the first one leads. -/
def join (p q : Path) : Path :=
  if q.start = .here then ⟨p.start, p.names ++ q.names⟩ else q

instance : HDiv Path String Path := ⟨fun p s => p.join (ofString s)⟩

/-- The path without its last name. -/
def parent (p : Path) : Path := ⟨p.start, p.names.dropLast⟩

/-- The last name, empty if there is none. -/
def name (p : Path) : String := p.names.getLastD ""

/-- Names taken one after the other, where two dots take back the name before them. -/
def resolveFrom : List String → List String → List String
  | names, [] => names
  | names, name :: rest =>
    if name = ".." then resolveFrom names.dropLast rest else resolveFrom (names ++ [name]) rest

/-- The path that leads to the same place from the root, given the names that lead to the
place where it starts. -/
def absolute (working : List String) (p : Path) : Path :=
  match p.start with
  | .here => ⟨.root, resolveFrom working p.names⟩
  | start => ⟨start, resolveFrom [] p.names⟩

/-- What is read as a path has no names but names. -/
theorem isName_of_mem_ofString {s n : String} (h : n ∈ (ofString s).names) :
    isName n = true :=
  (List.mem_filter.1 h).2

/-- Joining puts the names one after the other. -/
@[simp] theorem names_join_of_here {p q : Path} (h : q.start = .here) :
    (p.join q).names = p.names ++ q.names := by
  simp [join, h]

/-- A path is its parent and its last name. -/
theorem join_parent_name {p : Path} (h : p.names ≠ []) :
    p.parent.join ⟨.here, [p.name]⟩ = p := by
  cases p with
  | mk start names =>
    simp only [parent, name, join, ↓reduceIte]
    rw [List.getLastD_eq_getLast?, List.getLast?_eq_some_getLast h]
    simp [List.dropLast_concat_getLast h]

/-- A parent has fewer names. -/
theorem parent_names_length {p : Path} (h : p.names ≠ []) :
    p.parent.names.length < p.names.length := by
  have := List.length_pos_iff.2 h
  simp only [parent, List.length_dropLast]
  omega

end Path

end OpenApiClient
