import OpenApiClient.CommandLine.Run
import OpenApiClient.Proofs.Walk

/-!
# How the steps of a run end

Seen from outside, a step of a run starts at a disk and ends with a result, at a disk, with some
text on standard output; what it writes to the error stream matters to nothing that comes after it.
Up to the writing of a library a run reads the machine that it was given and nothing else, so how
far it comes can be said without its steps.
-/

namespace OpenApiClient

/-- The exit code of a fault: that of a failure, and the general one otherwise. -/
def Fault.exitCode : Fault → Nat
  | .failed failure => failure.exitCode
  | _ => 1

theorem Fault.exitCode_ne_zero (fault : Fault) : fault.exitCode ≠ 0 := by
  cases fault with
  | failed failure =>
      change failure.cause.exitCode ≠ 0
      cases failure.cause <;> exact Nat.succ_ne_zero _
  | refused | blocked | invalid => exact Nat.one_ne_zero

namespace CommandLine

open Running Walk

/-- Started at one disk, a step ends with a result at another disk, and has written a text to
standard output. -/
def Ends {α : Type} (step : Running α) (d : Disk) (x : Except Fault α) (d' : Disk) (out : String) :
    Prop :=
  ∀ s : Streams, (outcome step ⟨d, s⟩).1 = x ∧ (outcome step ⟨d, s⟩).2.disk = d' ∧
    (outcome step ⟨d, s⟩).2.streams.out = s.out ++ out

section Ends

variable {α β : Type} {step : Running α} {next : α → Running β} {d d' d'' : Disk} {a : α}
  {fault : Fault} {x : Except Fault β} {out out' : String}

theorem out_append (s s' : Streams) : (s ++ s').out = s.out ++ s'.out := rfl

theorem out_append_say (s : Streams) (c : Console) (tone : Tone) (message : String) :
    (s ++ c.say tone message).out = s.out := by
  rw [out_append, c.say_out, String.append_empty]

theorem ends_pure (a : α) (d : Disk) : Ends (pure a) d (.ok a) d "" := fun _ =>
  ⟨rfl, rfl, String.append_empty.symm⟩

theorem ends_ofExcept (x : Except Fault α) (d : Disk) : Ends (MonadExcept.ofExcept x) d x d "" :=
  fun _ => by cases x <;> exact ⟨rfl, rfl, String.append_empty.symm⟩

theorem ends_emit (s : Streams) (d : Disk) : Ends (emit s) d (.ok ()) d s.out := fun _ =>
  ⟨rfl, rfl, rfl⟩

theorem ends_silent {s : Streams} (h : s.out = "") (d : Disk) : Ends (emit s) d (.ok ()) d "" :=
  h ▸ ends_emit s d

theorem Ends.bind (h : Ends step d (.ok a) d' out) (h' : Ends (next a) d' x d'' out') :
    Ends (step >>= next) d x d'' (out ++ out') := by
  intro s
  obtain ⟨hresult, rfl, hout⟩ := h s
  rw [outcome_bind]
  rcases hp : outcome step ⟨d, s⟩ with ⟨_ | b, p⟩ <;> rw [hp] at hresult hout h'
  · cases hresult
  · obtain rfl := Except.ok.inj hresult
    obtain ⟨hresult', hdisk', hout'⟩ := h' p.streams
    exact ⟨hresult', hdisk', by rw [hout', hout, String.append_assoc]⟩

theorem Ends.bind_error (h : Ends step d (.error fault) d' out) :
    Ends (step >>= next) d (.error fault) d' out := by
  intro s
  obtain ⟨hresult, hdisk, hout⟩ := h s
  rw [outcome_bind]
  rcases hp : outcome step ⟨d, s⟩ with ⟨_ | b, p⟩ <;> rw [hp] at hresult hdisk hout
  · obtain rfl := Except.error.inj hresult
    exact ⟨rfl, hdisk, hout⟩
  · cases hresult

/-- A step that only tells something is followed by what is told. -/
theorem Ends.bind_told {y : Except Fault α} {f : α → Except Fault β} (h : Ends step d y d "")
    (h' : ∀ a, Ends (next a) d (f a) d "") : Ends (step >>= next) d (y >>= f) d "" := by
  cases y with
  | error fault => exact h.bind_error
  | ok a => exact h.bind (h' a)

theorem Ends.bind_silent (h : Ends step d (.ok a) d' "") (h' : Ends (next a) d' x d'' out) :
    Ends (step >>= next) d x d'' out := by
  simpa using h.bind h'

theorem ends_emitLog (c : Console) (log : List Record) (d : Disk) :
    Ends (emitLog c log) d (.ok ()) d "" := by
  unfold emitLog
  split
  · exact ends_emit _ d
  · exact ends_pure () d

/-- What can be written is seen on standard output, and what cannot ends the step. -/
theorem ends_emitResult {shown : Except Fault Streams} {text : Except Fault String}
    (h : shown.map (·.out) = text) (d : Disk) :
    Ends (emitResult shown) d (text.map fun _ => ()) d (text.toOption.getD "") := by
  subst h
  cases shown with
  | error fault => exact (ends_ofExcept (.error fault) d).bind_error
  | ok s => exact (ends_ofExcept (.ok s) d).bind_silent (ends_emit s d)

/-- Nothing that happens to the disk shows on standard output. -/
theorem ends_file (c : Console) (action : Filing α) (d : Disk) :
    Ends (file c action) d (outcome action { d with log := #[] }).1
      { (outcome action { d with log := #[] }).2 with log := #[] } "" := by
  rcases ho : outcome action { d with log := #[] } with ⟨y, d₁⟩
  intro s
  have hstep : outcome (file c action) ⟨d, s⟩ =
      outcome (do emitLog c d₁.log.toList; MonadExcept.ofExcept y : Running α)
        ⟨{ d₁ with log := #[] }, s⟩ := by
    change outcome (do
      let (result, disk) := outcome action { d with log := #[] }
      modify fun p : Progress => { p with disk := { disk with log := #[] } }
      emitLog c disk.log.toList
      MonadExcept.ofExcept result : Running α) ⟨d, s⟩ = _
    rw [ho]
    rfl
  rw [hstep]
  exact (ends_emitLog c d₁.log.toList _).bind_silent (ends_ofExcept y _) s

end Ends

/-- The settings of a task and the library that its source describes, or why there is none. -/
def Machine.compiled (m : Machine) (t : Task) : Except Fault (Settings × Library) := do
  let s ← m.settings t.flags
  let root ← ((Document.Source.ofString t.source).load m.disk m.input m.fetch).2
  let declared ← Document.version root
  let description ← Description.ofDocument (Document.ofValue root) declared
  let l ← (Library.ofDescription description s).1
  return (s, l)

theorem out_warn (c : Console) (messages : List String) : (c.warn messages).out = "" := by
  have hfold (last : Streams) (hlast : last.out = "") :
      (messages.foldr (fun m s => c.say .warning m ++ s) last).out = "" := by
    induction messages with
    | nil => exact hlast
    | cons message messages ih => rw [List.foldr_cons, out_append, ih, c.say_out]; rfl
  refine hfold _ ?_
  split
  · rfl
  · exact c.say_out _ _

/-- Compiling tells whether there is a library, and nothing more. -/
theorem ends_compile (m : Machine) (c : Console) (t : Task) (d : Disk) :
    Ends (compile m c t) d (m.compiled t) d "" := by
  refine (ends_ofExcept _ d).bind_told fun s => ?_
  refine (ends_silent (c.say_out _ _) d).bind_silent ?_
  refine (ends_emitLog c _ d).bind_silent ?_
  refine (ends_ofExcept _ d).bind_told fun root => ?_
  refine (ends_ofExcept _ d).bind_told fun declared => ?_
  refine (ends_ofExcept _ d).bind_told fun description => ?_
  refine (ends_emitLog c _ d).bind_silent ?_
  refine (ends_ofExcept _ d).bind_told fun l => ?_
  exact (ends_silent (out_warn c l.warnings) d).bind_silent (ends_pure (s, l) d)

section Tasks

variable {m : Machine} {c : Console} {t : Task} {d d' : Disk} {s : Settings} {l : Library}
  {written : List Path} {fault : Fault}

/-- Where the files of a library go when a task is to write them. -/
def Machine.writing (m : Machine) (s : Settings) (l : Library) : Filing (List Path) :=
  Output.write m.nonce (m.templates s) l (Path.ofString s.output) s.generateTests

/-- A task without a library ends before it has done anything. -/
theorem ends_perform_of_not_compiled (h : m.compiled t = .error fault) :
    Ends (perform m c t) d (.error fault) d "" := by
  have hcompile : Ends (compile m c t) d (.error fault) d "" := h ▸ ends_compile m c t d
  cases t with
  | generate => exact hcompile.bind_error
  | inspect => exact hcompile.bind_error

theorem ends_generate_of_not_written (h : m.compiled t = .ok (s, l))
    (hwrite : outcome (m.writing s l) { d with log := #[] } = (.error fault, d')) :
    Ends (generate m c t) d (.error fault) { d' with log := #[] } "" := by
  have hfile := ends_file c (m.writing s l) d
  rw [hwrite] at hfile
  exact ((h ▸ ends_compile m c t d).bind_silent) hfile.bind_error

theorem ends_generate_of_written (h : m.compiled t = .ok (s, l))
    (hwrite : outcome (m.writing s l) { d with log := #[] } = (.ok written, d'))
    {text : Except Fault String}
    (htext : (c.summarize (summaryOf s l written) (completion s l written)).map (·.out) = text) :
    Ends (generate m c t) d (text.map fun _ => ()) { d' with log := #[] }
      (text.toOption.getD "") := by
  have hfile := ends_file c (m.writing s l) d
  rw [hwrite] at hfile
  exact (h ▸ ends_compile m c t d).bind_silent (hfile.bind_silent (ends_emitResult htext _))

theorem ends_inspect_of_compiled (h : m.compiled t = .ok (s, l)) {text : Except Fault String}
    (htext : (c.printTable methodHeaders (methodRows l)).map (·.out) = text)
    (hnone : (methodRows l).isEmpty = false) :
    Ends (inspect m c t) d (text.map fun _ => ()) d (text.toOption.getD "") := by
  refine (h ▸ ends_compile m c t d).bind_silent ?_
  dsimp only
  rw [hnone]
  exact ends_emitResult htext d

theorem ends_inspect_of_none (h : m.compiled t = .ok (s, l))
    (hnone : (methodRows l).isEmpty = true) :
    Ends (inspect m c t) d (.ok ()) d "" := by
  refine (h ▸ ends_compile m c t d).bind_silent ?_
  dsimp only
  rw [hnone]
  exact ends_silent (c.say_out _ _) d

end Tasks

section Runs

variable {m : Machine} {words : List String} {preferences : Preferences} {t : Task}
  {x : Except Fault Unit} {fault : Fault} {d : Disk} {out : String}

/-- The exit code of a run whose task has come to an end. -/
def exitCode : Except Fault Unit → Nat
  | .ok () => 0
  | .error fault => fault.exitCode

/-- A run does its task and then tells how that ended. -/
theorem run_eq_conclude (hwords : Request.ofWords? words = some (.run preferences t)) :
    run m words = conclude m (m.console preferences) words
      (outcome (perform m (m.console preferences) t) { disk := m.disk }).2
      (outcome (perform m (m.console preferences) t) { disk := m.disk }).1 := by
  rw [run, hwords]
  rfl

theorem run_of_ends (hwords : Request.ofWords? words = some (.run preferences t))
    (h : Ends (perform m (m.console preferences) t) m.disk x d out) :
    (run m words).code = exitCode x ∧ (run m words).streams.out = out := by
  obtain ⟨hresult, -, hout⟩ := h {}
  replace hout := hout.trans String.empty_append
  rw [run_eq_conclude hwords, hresult]
  cases x with
  | ok => exact ⟨rfl, hout⟩
  | error fault => cases fault <;> exact ⟨rfl, (out_append_say _ _ _ _).trans hout⟩

theorem disk_of_failed (hwords : Request.ofWords? words = some (.run preferences t))
    {failure : Failure}
    (h : Ends (perform m (m.console preferences) t) m.disk (.error (.failed failure)) d out) :
    (run m words).disk = d ∧ (run m words).crash = none := by
  obtain ⟨hresult, hdisk, -⟩ := h {}
  rw [run_eq_conclude hwords, hresult]
  exact ⟨hdisk, rfl⟩

/-- A fault that was not foreseen is reported in the end. -/
theorem disk_of_crashed (hwords : Request.ofWords? words = some (.run preferences t))
    (hfault : ∀ failure, fault ≠ .failed failure)
    (h : Ends (perform m (m.console preferences) t) m.disk (.error fault) d out) :
    (run m words).disk =
        (outcome (Filing.write m.nonce m.reportPath (reportText words fault)) d).2 ∧
      (run m words).crash = some (fault, m.reportPath) := by
  obtain ⟨hresult, hdisk, -⟩ := h {}
  rw [run_eq_conclude hwords, hresult, ← hdisk]
  cases fault with
  | failed failure => exact absurd rfl (hfault failure)
  | refused | blocked | invalid => exact ⟨rfl, rfl⟩

end Runs

end CommandLine

end OpenApiClient
