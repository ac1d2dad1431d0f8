import OpenApiClient.Proofs.Paths
import OpenApiClient.Proofs.Running

/-!
# What a run leaves behind that fails

The files of a library are made before the first directory is, so a run that cannot make them all
has changed nothing when it learns so, be it a template of the user that gives no text.  All that
can still come is the report on a fault that was not foreseen, which is written below the data
directory.
-/

namespace OpenApiClient

open Walk

namespace Output

/-- What is noted changes nothing but the log. -/
theorem outcome_notes (log : List Record) (d : Disk) : ∃ noted, outcome
    (forIn log PUnit.unit fun r _ => do
      Filing.note r.level r.origin r.message
      pure (.yield PUnit.unit) : Filing PUnit) d = (.ok PUnit.unit, { d with log := noted }) := by
  induction log generalizing d with
  | nil => exact ⟨d.log, rfl⟩
  | cons r log ih =>
      rw [List.forIn_cons]
      exact ih { d with log := d.log.push ⟨r.level, r.origin, r.message⟩ }

/-- A library whose files cannot be made leaves the disk as it was. -/
theorem outcome_write_of_not_rendered (nonce : String) {ts : Php.Templates} {l : Library}
    (root : Path) {withTests : Bool} {fault : Fault}
    (h : (Php.render ts l withTests).2 = .error fault) (d : Disk) :
    ∃ noted, outcome (write nonce ts l root withTests) d =
      (.error fault, { d with log := noted }) := by
  obtain ⟨noted, hnoted⟩ := outcome_notes (Php.render ts l withTests).1 d
  refine ⟨noted, ?_⟩
  unfold write
  dsimp only
  rw [outcome_bind, hnoted]
  dsimp only
  rw [h]
  rfl

end Output

namespace CommandLine

/-- The files that a task is to write, or why they cannot be made: because of the settings, the
source, the version, the description, the library or a file of it. -/
def Machine.drafted (m : Machine) (t : Task) : Except Fault (List (String × String)) := do
  let (s, l) ← m.compiled t
  (Php.render (m.templates s) l s.generateTests).2

/-- The data directory of a machine. -/
def Machine.dataDirectory (m : Machine) : Path :=
  DataDirectory.path m.system m.home m.environment

section Failing

variable {m : Machine} {c : Console} {t : Task} {d : Disk} {fault : Fault} {words : List String}

/-- The name of a report is no dots. -/
theorem isName_report (time : String) : Path.isName ("crash-" ++ time ++ ".log") = true ∧
    "crash-" ++ time ++ ".log" ≠ ".." := by
  refine Path.isName_of_length ?_
  rw [String.length_append, String.length_append]
  have hlog : (".log" : String).length = 4 := rfl
  omega

theorem reportPath_eq (h : '/' ∉ m.time.toList) :
    m.reportPath = m.dataDirectory.join ⟨.here, ["logs", "crash-" ++ m.time ++ ".log"]⟩ := by
  have hlogs : Path.ofString "logs" = ⟨.here, ["logs"]⟩ := by decide
  have hname : Path.ofString ("crash-" ++ m.time ++ ".log") =
      ⟨.here, ["crash-" ++ m.time ++ ".log"]⟩ :=
    Path.ofString_of_notMem (by simpa using h) (isName_report m.time).1
  unfold Machine.reportPath
  change ((m.dataDirectory.join (Path.ofString "logs")).join
    (Path.ofString ("crash-" ++ m.time ++ ".log"))) = _
  rw [hlogs, hname]
  simp [Path.join]

/-- A generation that cannot make its files ends where it has begun. -/
theorem ends_generate_of_not_drafted (h : m.drafted t = .error fault) :
    ∃ noted, Ends (generate m c t) d (.error fault) { d with log := noted } "" := by
  unfold Machine.drafted at h
  cases hcompiled : m.compiled t with
  | error e =>
      rw [hcompiled] at h
      obtain rfl := Except.error.inj h
      exact ⟨d.log, (hcompiled ▸ ends_compile m c t d).bind_error⟩
  | ok made =>
      obtain ⟨s, l⟩ := made
      rw [hcompiled] at h
      obtain ⟨noted, hnoted⟩ :=
        Output.outcome_write_of_not_rendered m.nonce (Path.ofString s.output) h
        { d with log := #[] }
      have hwrite : outcome (m.writing s l) { d with log := #[] } =
          (.error fault, { d with log := noted }) := hnoted
      have hends : Ends (generate m c t) d (.error fault)
          { { d with log := noted } with log := #[] } "" :=
        ends_generate_of_not_written hcompiled hwrite
      exact ⟨#[], hends⟩

/-- What is left of a run that ended with a fault before it wrote anything. -/
structure LeavesNothing (m : Machine) (words : List String) (fault : Fault) (o : Outcome) :
    Prop where
  code : o.code = fault.exitCode
  /-- After a failure the tree is what it was. -/
  failed (failure : Failure) (h : fault = .failed failure) :
    o.disk.tree = m.disk.tree ∧ o.crash = none
  /-- After any other fault the report has come to its place, if it could be written. -/
  crashed (h : ∀ failure, fault ≠ .failed failure) : o.crash = some (fault, m.reportPath) ∧
    m.disk.Gains (fun p text => p = m.reportPath ∧ text = reportText words fault)
      (· = m.reportPath.parent) o.disk

/-- A generation that cannot make its files changes nothing; a fault that is no failure is reported
below the data directory. -/
theorem leavesNothing_of_not_drafted (m : Machine) {words : List String} {preferences : Preferences}
    {source : String} {output space clientName templates : Option String} {tests strict : Bool}
    {fault : Fault}
    (hwords : Request.ofWords? words =
      some (.run preferences (.generate source output space clientName templates tests strict)))
    (hfault : m.drafted (.generate source output space clientName templates tests strict) =
      .error fault) :
    LeavesNothing m words fault (run m words) ∧
      ('/' ∉ m.time.toList → m.disk.place m.reportPath =
        m.disk.place m.dataDirectory ++ ["logs", "crash-" ++ m.time ++ ".log"]) := by
  obtain ⟨noted, hends⟩ :=
    ends_generate_of_not_drafted (c := m.console preferences) (d := m.disk) hfault
  constructor
  · have hcode := (run_of_ends hwords hends).1
    by_cases hfailed : ∃ failure, fault = .failed failure
    · obtain ⟨failure, rfl⟩ := hfailed
      obtain ⟨hdisk, hcrash⟩ := disk_of_failed hwords hends
      exact ⟨hcode, fun _ _ => ⟨by rw [hdisk], hcrash⟩, fun h => absurd rfl (h failure)⟩
    · have hother (failure : Failure) : fault ≠ .failed failure := fun h => hfailed ⟨failure, h⟩
      obtain ⟨hdisk, hcrash⟩ := disk_of_crashed hwords hother hends
      refine ⟨hcode, fun failure h => absurd h (hother failure), fun _ => ⟨hcrash, ?_⟩⟩
      rw [hdisk]
      have hnoted : m.disk.Same { m.disk with log := noted } := ⟨rfl, fun _ => rfl⟩
      have hwrite :
          Keeps (Disk.Gains (fun p text => p = m.reportPath ∧ text = reportText words fault)
          (· = m.reportPath.parent)) (Filing.write m.nonce m.reportPath (reportText words fault)) :=
        Filing.keeps_write m.nonce ⟨rfl, rfl⟩ rfl
      exact trans_of (Disk.Gains _ _) hnoted.gains (hwrite _)
  · intro htime
    rw [reportPath_eq htime]
    refine m.disk.place_join_of_notMem m.dataDirectory ?_
    simpa using (isName_report m.time).2.symm

/-- A machine whose project file is no text. -/
def unreadableProject : Machine where
  disk := { tree := .directory [(Settings.projectFileName, .file [0xff])] }
  home := "/home"
  nonce := "n"
  time := "20260101-000000"

/-- A template that asks for something unknown. -/
def unknownVariable : List UInt8 :=
  "\x7b\x7b undefined_variable \x7d\x7d".toList.map fun c => UInt8.ofNat c.toNat

/-- A machine with such a template in the place of that of the client. -/
def brokenTemplates : Machine where
  disk := { tree := .directory [("templates", .directory [("client.php.j2",
    .file unknownVariable)])] }
  input := "\x7b\"openapi\":\"3.\"\x7d"
  interpret file? template _ :=
    if file? template = some unknownVariable then
      .error (.failed "'undefined_variable' is undefined")
    else .ok ""
  home := "/home"
  nonce := "n"
  time := "20260101-000000"

/-- A project file that is no text is reported as a fault that was not foreseen, and a template
that asks for something unknown is a failure of the output. -/
theorem leavesNothing_unreadableProject_brokenTemplates :
    (LeavesNothing unreadableProject ["generate", "-"] (.refused .notUtf8)
        (run unreadableProject ["generate", "-"]) ∧
      unreadableProject.disk.place unreadableProject.reportPath =
        ["home", ".local", "share", "phpclientgen", "logs", "crash-20260101-000000.log"]) ∧
    LeavesNothing brokenTemplates ["generate", "-", "--templates", "templates"]
        (.of (.templateFailed "client.php.j2" "'undefined_variable' is undefined"))
        (run brokenTemplates ["generate", "-", "--templates", "templates"]) ∧
      (run brokenTemplates ["generate", "-", "--templates", "templates"]).code = 11 := by
  constructor
  · have hwords : Request.ofWords? ["generate", "-"] =
        some (.run {} (.generate "-" none none none none false false)) := by decide +kernel
    have hfault : unreadableProject.drafted (.generate "-" none none none none false false) =
        .error (.refused .notUtf8) := by decide +kernel
    obtain ⟨hnothing, hplace⟩ := leavesNothing_of_not_drafted unreadableProject hwords hfault
    exact ⟨hnothing, hplace (by decide)⟩
  · have hwords : Request.ofWords? ["generate", "-", "--templates", "templates"] =
        some (.run {} (.generate "-" none none none (some "templates") false false)) := by
      decide +kernel
    have hfault : brokenTemplates.drafted
        (.generate "-" none none none (some "templates") false false) =
        .error (.of (.templateFailed "client.php.j2" "'undefined_variable' is undefined")) := by
      decide +kernel
    obtain ⟨hnothing, -⟩ := leavesNothing_of_not_drafted brokenTemplates hwords hfault
    exact ⟨hnothing, hnothing.code⟩

end Failing

end CommandLine

end OpenApiClient
