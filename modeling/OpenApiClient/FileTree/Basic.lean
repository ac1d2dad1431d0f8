/-!
# File trees

A tree of directories and files.  A place in it is the row of names that leads to it from the
root.  What stands at a place is seen by `get?`; putting something at a place changes that
place and what lies below it, and nothing else.
-/

namespace OpenApiClient

/-- A file with its bytes, or a directory with what stands in it. -/
inductive FileTree where
  | file (bytes : List UInt8)
  | directory (entries : List (String × FileTree))
  deriving Repr, Inhabited

/-- The names that lead to a place from the root. -/
abbrev Place := List String

namespace FileTree

/-- A directory in which nothing stands. -/
abbrev empty : FileTree := .directory []

/-- The file that holds a text. -/
def ofText (s : String) : FileTree := .file s.toUTF8.toList

/-- Whether this is a directory. -/
def isDirectory : FileTree → Bool
  | .directory _ => true
  | .file _ => false

/-- What stands at a place. -/
def get? : FileTree → Place → Option FileTree
  | t, [] => some t
  | .file _, _ :: _ => none
  | .directory entries, name :: rest =>
    match entries.lookup name with
    | none => none
    | some t => t.get? rest

/-- Gives a name to something, in place of what has the name or after all others. -/
def setEntry (name : String) (t : FileTree) :
    List (String × FileTree) → List (String × FileTree)
  | [] => [(name, t)]
  | (n, old) :: rest => if n = name then (n, t) :: rest else (n, old) :: setEntry name t rest

/-- Puts something at a place, in directories that are made where there are none.  Nothing is
put below a file. -/
def put : FileTree → Place → FileTree → FileTree
  | _, [], new => new
  | .file bytes, _ :: _, _ => .file bytes
  | .directory entries, name :: rest, new =>
    .directory (setEntry name (put ((entries.lookup name).getD empty) rest new) entries)

/-- Takes away what stands at a place.  The root stays. -/
def erase : FileTree → Place → FileTree
  | t, [] => t
  | .file bytes, _ :: _ => .file bytes
  | .directory entries, [name] => .directory (entries.filter (·.1 != name))
  | .directory entries, name :: rest =>
    match entries.lookup name with
    | none => .directory entries
    | some t => .directory (setEntry name (erase t rest) entries)

mutual

/-- Every place at which something stands, with the bytes of the files. -/
def listing : FileTree → List (Place × Option (List UInt8))
  | .file bytes => [([], some bytes)]
  | .directory entries => ([], none) :: entriesListing entries

/-- `listing` name by name. -/
def entriesListing : List (String × FileTree) → List (Place × Option (List UInt8))
  | [] => []
  | (name, t) :: rest =>
    (listing t).map (fun (place, bytes) => (name :: place, bytes)) ++ entriesListing rest

end

@[simp] theorem lookup_setEntry_self (name : String) (t : FileTree)
    (entries : List (String × FileTree)) : (setEntry name t entries).lookup name = some t := by
  induction entries with
  | nil => simp [setEntry]
  | cons e rest ih =>
    obtain ⟨n, old⟩ := e
    by_cases h : n = name
    · simp [setEntry, h]
    · have hn : (name == n) = false := by simpa using Ne.symm h
      simp [setEntry, h, List.lookup_cons, hn, ih]

theorem lookup_setEntry_of_ne {name other : String} (h : other ≠ name) (t : FileTree)
    (entries : List (String × FileTree)) :
    (setEntry name t entries).lookup other = entries.lookup other := by
  have hb : (other == name) = false := by simpa using h
  induction entries with
  | nil => simp [setEntry, List.lookup_cons, hb]
  | cons e rest ih =>
    obtain ⟨n, old⟩ := e
    by_cases hn : n = name
    · subst hn
      simp [setEntry, List.lookup_cons, hb]
    · cases ho : other == n <;> simp [setEntry, hn, List.lookup_cons, ho, ih]

/-- What is put at a place stands there, if the way to it leads through no file. -/
theorem get?_put_self (t : FileTree) (place : Place) (new : FileTree)
    (h : ∀ above, above <+: place → above ≠ place → (t.get? above).all (·.isDirectory)) :
    (t.put place new).get? place = some new := by
  induction place generalizing t with
  | nil => cases t <;> simp [put, get?]
  | cons name rest ih =>
    cases t with
    | file bytes =>
      have := h [] ⟨_, rfl⟩ (by simp)
      simp [get?, isDirectory] at this
    | directory entries =>
      simp only [put, get?, lookup_setEntry_self]
      apply ih
      intro above hab hne
      cases hl : entries.lookup name with
      | none => cases above <;> simp [get?, isDirectory]
      | some t =>
        have := h (name :: above) (by simpa using hab) (by simpa using hne)
        simpa [get?, hl] using this

end FileTree

end OpenApiClient
