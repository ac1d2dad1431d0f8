import OpenApiClient.Log
import OpenApiClient.Php.Templates
import OpenApiClient.Php.TestSkeletons

/-!
# The files of a library

All files with their names below the output directory, in the order in which they are
written.  Nothing is written before every file has its content.  A file has the content that its
built-in template gives, unless a template of the user takes part in it.
-/

namespace OpenApiClient.Php

/-- A file to be written: its name, the template of its kind with what it is rendered with, and
the content that the built-in template gives. -/
structure Draft where
  name : String
  template : String
  subject : Subject
  content : Except Fault String

/-- The templates that take part in a file. -/
def Draft.templates (d : Draft) : List String :=
  if d.template = managerTemplate || d.template = resourceTemplate then [d.template, methodTemplate]
  else [d.template]

/-- The content of a file, given the templates of the user. -/
def Draft.contentWith (ts : Templates) (d : Draft) : Except Fault String :=
  if d.templates.any ts.replaces then
    (ts.interpret ts.file? d.template d.subject).mapError (·.fault d.template)
  else d.content

/-- A file that no template of the user takes part in has the content that the built-in template
gives. -/
theorem Draft.contentWith_of_not_replaces {ts : Templates} {d : Draft}
    (h : ∀ template ∈ d.templates, ts.replaces template = false) :
    d.contentWith ts = d.content := by
  have hnone : d.templates.any ts.replaces = false :=
    List.any_eq_false.2 fun t ht => Bool.eq_false_iff.1 (h t ht)
  rw [contentWith, hnone]
  rfl

/-- The files of a library before they are known to have content. -/
def drafts (l : Library) (withTests : Bool) : List Draft :=
  [⟨l.client.name ++ ".php", clientTemplate, .client l.client, .ok (clientFile l.client)⟩] ++
  l.managers.map (fun m =>
    ⟨"Managers/" ++ m.name ++ ".php", managerTemplate, .manager l.client m,
      managerFile l.client m⟩) ++
  l.resources.map (fun r =>
    ⟨"Resources/" ++ r.name ++ ".php", resourceTemplate, .resource l.client r,
      resourceFile l.client r⟩) ++
  l.exceptions.map (fun e =>
    ⟨"Exceptions/" ++ e.name ++ ".php", e.template, .exception l.client e,
      .ok (exceptionFile e)⟩) ++
  (if withTests then
    l.managers.map (fun m =>
      ⟨"Tests/Managers/" ++ m.name ++ "Test.php", "manager_test.php.j2", .manager l.client m,
        .ok (managerTestFile l.client m)⟩) ++
    l.resources.map (fun r =>
      ⟨"Tests/Resources/" ++ r.name ++ "Test.php", "resource_test.php.j2", .resource l.client r,
        .ok (resourceTestFile l.client r)⟩)
  else [])

/-- Puts a content under a name, in place of what is there or at the end. -/
def putFile (name content : String) : List (String × String) → List (String × String)
  | [] => [(name, content)]
  | (k, old) :: rest =>
    if k = name then (k, content) :: rest else (k, old) :: putFile name content rest

/-- Gives the drafts their contents one after the other, noting each. -/
def renderDrafts (ts : Templates) : List (String × String) → List Draft →
    List Record × Except Fault (List (String × String))
  | files, [] => ([], .ok files)
  | files, d :: rest =>
    let noted : Record := ⟨.debug, "render.renderer", "Rendering " ++ d.template⟩
    match d.contentWith ts with
    | .error fault => ([noted], .error fault)
    | .ok content =>
      let (log, made) := renderDrafts ts (putFile d.name content files) rest
      (noted :: log, made)

/-- The files of a library, with what is noted on the way. -/
def render (ts : Templates) (l : Library) (withTests : Bool) :
    List Record × Except Fault (List (String × String)) :=
  renderDrafts ts [] (drafts l withTests)

end OpenApiClient.Php
