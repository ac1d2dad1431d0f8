import OpenApiClient.Json.Defect

/-!
# Faults

Everything that ends a run before its time.  A *failure* is one the program reports to its
user in words, together with the operation it was working on.  A *refusal* is a value used
in a way that its kind does not allow.  A *blocked* step is one that the file system did not
do.  An *invalid record* is a record that was to be filled with values of the wrong kind.
-/

namespace OpenApiClient

/-- Uses that a value does not allow, named by what is wrong. -/
inductive Refusal where
  /-- A field was asked of what is no mapping. -/
  | notAMapping
  /-- A text of another kind was needed, such as a text tagged as a point in time. -/
  | notAMoment
  /-- A value without members was walked through. -/
  | notIterable
  /-- A member was looked for in a value that has none. -/
  | notAContainer
  /-- A collection was used as a key or as a member of a set. -/
  | notAKey
  /-- A name was needed and the value is no text. -/
  | notText
  /-- A value was asked for a part that its kind does not have. -/
  | notIndexable
  /-- A value was called as a function. -/
  | notCallable
  /-- A position outside a list. -/
  | outOfRange
  /-- A text that is no number, or one with too many digits. -/
  | notANumber
  /-- A day or time that no calendar or clock shows. -/
  | notADate
  /-- A code point beyond the last one. -/
  | notACharacter
  /-- A number that needs more than 31 bits where no more are held. -/
  | tooLarge
  /-- A word that stands for neither true nor false. -/
  | notABoolean
  /-- Bytes that are no text. -/
  | notUtf8
  /-- A path with a character that no file name has. -/
  | notAPath
  /-- What a template of the user asked for and did not get. -/
  | raised (what : String)
  deriving DecidableEq, Repr, Inhabited

/-- Records whose fields are checked when they are filled. -/
inductive RecordKind where
  | options
  | information
  | server
  | operation
  | securityScheme
  | description
  | property
  | parameter
  | route
  deriving DecidableEq, Repr

/-- What is wrong with a field. -/
inductive IssueKind where
  | missing
  | textExpected
  | textUnreadable
  | mappingExpected
  | booleanExpected
  | booleanUnreadable
  | unknownField
  deriving DecidableEq, Repr

/-- A step from a field towards what is wrong in it: a position in a list, or a key. -/
inductive IssuePlace where
  | number (n : Int)
  | name (s : String)
  deriving DecidableEq, Repr

/-- A field, the way from it to the part that is meant, and what is wrong there. -/
structure Issue where
  field : String
  place : List IssuePlace := []
  kind : IssueKind
  deriving DecidableEq, Repr

/-- Reasons for an unusable project file. -/
inductive ProjectFileReason where
  | malformed (defect : Json.Defect)
  | notAnObject
  deriving DecidableEq, Repr

/-- What a file system answers when it does not do what it is told, with the paths it was
told. -/
inductive FileProblem where
  /-- Nothing stands where something is needed. -/
  | missing (path : String)
  /-- Something stands where a directory is to be made. -/
  | exists (path : String)
  /-- A file is to take the place of a directory. -/
  | isADirectory (source target : String)
  /-- A file stands where a path needs a directory. -/
  | notADirectory (path : String)
  /-- A file is to take the place of a directory that is in use. -/
  | busy (source target : String)
  /-- A file name beyond the limit of the file system. -/
  | nameTooLong (path : String)
  deriving DecidableEq, Repr

/-- Causes of failures. -/
inductive Cause where
  | emptySource (source : String)
  | fileNotFound (path : String)
  | unreadableFile (path reason : String)
  | httpStatus (status : Nat) (url : String)
  | unreachable (url reason : String)
  | malformedDocument (json : Json.Defect)
  | notAnObject (kind : String)
  | oldFormat (version : String)
  | missingVersion
  | unsupportedVersion (version : String)
  | unsupportedReference (pointer : String)
  | referenceNotFound (pointer missing : String)
  | referencedBody (pointer : String)
  | duplicateOperation (operationId className : String)
  | templateFailed (template reason : String)
  | cannotWrite (path : String) (problem : FileProblem)
  | cannotCreate (path : String) (problem : FileProblem)
  | invalidProjectFile (path : String) (reason : ProjectFileReason)
  | invalidOptions (issues : List Issue)
  deriving DecidableEq, Repr

/-- A failure: its cause and, once known, the operation during which it arose. -/
structure Failure where
  cause : Cause
  operation : Option String := none
  deriving DecidableEq, Repr

/-- Everything that ends a run. -/
inductive Fault where
  | failed (failure : Failure)
  | refused (refusal : Refusal)
  | blocked (problem : FileProblem)
  | invalid (record : RecordKind) (issues : List Issue)
  deriving DecidableEq, Repr

/-- A failure whose operation is not known yet. -/
abbrev Fault.of (cause : Cause) : Fault := .failed { cause := cause }

/-- Notes the operation of a failure unless one is noted already. -/
def Fault.during (operation : String) : Fault → Fault
  | .failed f => .failed { f with operation := some (f.operation.getD operation) }
  | fault => fault

/-- The innermost operation is the one that stays. -/
@[simp] theorem Fault.during_during (a b : String) (f : Fault) :
    (f.during a).during b = f.during a := by
  cases f with
  | failed f => cases f with | mk c o => cases o <;> rfl
  | refused => rfl
  | blocked => rfl
  | invalid => rfl

end OpenApiClient
