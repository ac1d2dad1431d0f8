import OpenApiClient.Disk.Basic
import OpenApiClient.Library.Basic

/-!
# Templates of a user

The files of a library are written with templates.  A user may keep templates in a directory: one
that has the name of a built-in template takes its place, for the files that are written with it
and for the templates that take something from it.  What becomes of such a template is up to an
interpreter, which gives a text or tells why there is none.
-/

namespace OpenApiClient.Php

/-- What a template is rendered with: the client and, but for the file of the client, what the file
is about. -/
inductive Subject where
  | client (client : ClientClass)
  | manager (client : ClientClass) (c : GeneratedClass)
  | resource (client : ClientClass) (c : ResourceClass)
  | exception (client : ClientClass) (e : ExceptionClass)
  deriving Repr

/-- Why a template gives no text: it is at fault, or something else has gone wrong on the way. -/
inductive TemplateFault where
  | failed (reason : String)
  | raised (what : String)
  deriving DecidableEq, Repr

/-- What becomes of a fault in the rendering of a template. -/
def TemplateFault.fault (template : String) : TemplateFault → Fault
  | .failed reason => .of (.templateFailed template reason)
  | .raised what => .refused (.raised what)

/-- What an interpreter makes of a template, given the files of the user by their names and what
the template is rendered with. -/
abbrev Interpreter :=
  (String → Option (List UInt8)) → String → Subject → Except TemplateFault String

/-- The templates of a user: files by their names, and an interpreter. -/
structure Templates where
  file? : String → Option (List UInt8) := fun _ => none
  interpret : Interpreter := fun _ _ _ => .error (.failed "")

/-- The template that those of managers and resources take their methods from. -/
def methodTemplate : String := "_route.php.j2"

namespace Templates

/-- The file that a name leads to from a directory of templates.  No name leads up. -/
def fileIn? (d : Disk) (directory : String) (name : String) : Option (List UInt8) :=
  let names := (Path.ofString name).names
  if names.contains ".." then none
  else (d.bytes? ((Path.ofString directory).join ⟨.here, names⟩)).toOption.join

/-- Whether the user has a file in the place of a built-in template. -/
def replaces (ts : Templates) (template : String) : Bool := (ts.file? template).isSome

end Templates

end OpenApiClient.Php
