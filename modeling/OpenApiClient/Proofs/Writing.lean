import Mathlib.Order.Defs.Unbundled
import OpenApiClient.Disk.Filing
import OpenApiClient.Proofs.Places
import OpenApiClient.Proofs.Walk

/-!
# What writing a file changes

A file is written under another name first, and then moved to its place.  However that ends, nothing
is left of the other name: at most the file has come to stand in its place, and directories have
been made where nothing stood on the way to it.
-/

namespace OpenApiClient

open Walk

section Walk

variable {σ α : Type}

theorem Walk.outcome_tryCatch (m : ExceptT Fault (StateM σ) α)
    (h : Fault → ExceptT Fault (StateM σ) α)
    (s : σ) : outcome (tryCatch m h) s = match outcome m s with
      | (.ok a, s') => (.ok a, s')
      | (.error e, s') => outcome (h e) s' := by
  simp only [outcome, tryCatch, tryCatchThe, MonadExceptOf.tryCatch, ExceptT.tryCatch,
    ExceptT.run, ExceptT.mk, bind, StateT.bind]
  rcases m s with ⟨_ | a, s'⟩ <;> rfl

theorem Walk.outcome_get_bind (f : σ → ExceptT Fault (StateM σ) α) (s : σ) :
    outcome (get >>= f) s = outcome (f s) s := rfl

end Walk

namespace Disk

/-- The place that the names of a path lead to. -/
def place (d : Disk) (p : Path) : Place :=
  Path.resolveFrom (if p.start = .here then d.working else []) p.names

theorem place_eq_absolute (d : Disk) (p : Path) : d.place p = (p.absolute d.working).names := by
  unfold place Path.absolute
  cases p.start <;> rfl

theorem eq_place_of_locate {d : Disk} {p : Path} {place : Place} (h : d.locate p = .ok place) :
    place = d.place p := by
  unfold locate at h
  split at h
  · cases h
  · exact FileTree.eq_resolveFrom_of_walk h

/-- A place to which the first names of a path lead, or one above it. -/
def OnTheWay (d : Disk) (p : Path) (q : Place) : Prop :=
  ∃ names, names <+: p.names ∧ q <+: d.place ⟨p.start, names⟩

/-- What may come to stand at a place: one of some files where no directory stands, and a directory
on the way of some paths where nothing stands. -/
inductive Change (files : Path → String → Prop) (directories : Path → Prop) (d : Disk) (q : Place) :
    Standing → Standing → Prop
  | same (s : Standing) : Change files directories d q s s
  | file {p : Path} {text : String} {s : Standing} (hp : files p text) (hq : q = d.place p)
      (hs : s ≠ .directory) : Change files directories d q s (.file text.toUTF8.toList)
  | directory {p : Path} (hp : directories p) (hq : d.OnTheWay p q) :
      Change files directories d q .nothing .directory

/-- One disk comes of another by writing some files and making directories on the way of some paths.
-/
structure Gains (files : Path → String → Prop) (directories : Path → Prop)
    (d d' : Disk) : Prop where
  working : d'.working = d.working
  change (q : Place) : Change files directories d q (d.tree.standing q) (d'.tree.standing q)

variable {files : Path → String → Prop} {directories : Path → Prop} {d d' : Disk} {p : Path}
  {q : Place}

theorem place_eq_of_working (h : d'.working = d.working) (p : Path) : d'.place p = d.place p := by
  unfold place
  rw [h]

/-- At all places stands the same. -/
structure Same (d d' : Disk) : Prop where
  working : d'.working = d.working
  standing (q : Place) : d'.tree.standing q = d.tree.standing q

/-- A file has come to stand at the end of a path, where no directory stood, and that is all. -/
structure Puts (p : Path) (text : String) (d d' : Disk) : Prop where
  working : d'.working = d.working
  free : d.tree.standing (d.place p) ≠ .directory
  standing (q : Place) : d'.tree.standing q =
    if q = d.place p then .file text.toUTF8.toList else d.tree.standing q

theorem Change.of_working (h : d'.working = d.working) {a b : Standing}
    (hc : Change files directories d' q a b) : Change files directories d q a b := by
  cases hc with
  | same => exact .same a
  | file hp hq hs => exact .file hp (place_eq_of_working h _ ▸ hq) hs
  | directory hp hq =>
      obtain ⟨names, hnames, hq⟩ := hq
      exact .directory hp ⟨names, hnames, place_eq_of_working h _ ▸ hq⟩

theorem Change.trans {a b c : Standing}
    (h : Change files directories d q a b)
    (h' : Change files directories d q b c) : Change files directories d q a c := by
  cases h with
  | same => exact h'
  | file hp hq hs =>
      cases h' with
      | same => exact .file hp hq hs
      | file hp' hq' _ => exact .file hp' hq' hs
  | directory hp hq =>
      cases h' with
      | same => exact .directory hp hq
      | file _ _ hs => exact absurd rfl hs

theorem Change.mono {files' : Path → String → Prop} {directories' : Path → Prop} {a b : Standing}
    (hfiles : ∀ p text, files p text → files' p text) (hdirs : ∀ p, directories p → directories' p)
    (h : Change files directories d q a b) : Change files' directories' d q a b := by
  cases h with
  | same => exact .same a
  | file hp hq hs => exact .file (hfiles _ _ hp) hq hs
  | directory hp hq => exact .directory (hdirs _ hp) hq

theorem Gains.mono {files' : Path → String → Prop} {directories' : Path → Prop}
    (hfiles : ∀ p text, files p text → files' p text) (hdirs : ∀ p, directories p → directories' p)
    (h : Gains files directories d d') : Gains files' directories' d d' :=
  ⟨h.working, fun q => (h.change q).mono hfiles hdirs⟩

instance : IsPreorder Disk (Gains files directories) where
  refl _ := ⟨rfl, fun _ => .same _⟩
  trans _ _ _ h h' := ⟨h'.working.trans h.working, fun q =>
    (h.change q).trans ((h'.change q).of_working h.working)⟩

theorem Same.gains (h : d.Same d') : Gains files directories d d' :=
  ⟨h.working, fun q => h.standing q ▸ .same _⟩

theorem Puts.gains {text : String} (h : Puts p text d d') (hp : files p text) :
    Gains files directories d d' := by
  refine ⟨h.working, fun q => ?_⟩
  rw [h.standing]
  split
  · next hq => exact .file hp hq (hq ▸ h.free)
  · exact .same _

theorem locate_of_directories (d d' : Disk) (hworking : d'.working = d.working)
    (hdirs : ∀ q, d.tree.standing q = .directory → d'.tree.standing q = .directory) {place : Place}
    (h : d.locate p = .ok place) : d'.locate p = .ok place := by
  unfold locate at h ⊢
  split at h
  · cases h
  · next hnul =>
      rw [if_neg hnul, hworking]
      exact FileTree.walk_of_directories hdirs h

theorem gains_makeDirectory (h : d.makeDirectory p = .ok d')
    {p' : Path} (hp : directories p') (hstart : p.start = p'.start)
    (hnames : p.names <+: p'.names) :
    Gains files directories d d' := by
  cases hplace : d.locate p with
  | error obstacle => simp [makeDirectory, hplace, bind, Except.bind] at h
  | ok place =>
      rw [makeDirectory, hplace] at h
      dsimp only [bind, Except.bind] at h
      split at h
      · cases h
      next hnone =>
      obtain rfl := Except.ok.inj h
      have hnothing : d.tree.standing place = .nothing :=
        FileTree.get?_eq_none_iff.1 (Option.not_isSome_iff_eq_none.1 hnone)
      refine ⟨rfl, fun q => ?_⟩
      rcases FileTree.standing_put_empty hnothing q with hsame | ⟨hupto, hold, hnew⟩
      · exact (congrArg (Change files directories d q _) hsame).mpr (.same _)
      · have hway : d.OnTheWay p' q := by
          refine ⟨p.names, hnames, ?_⟩
          rwa [eq_place_of_locate hplace, Disk.place, hstart] at hupto
        rw [hold]
        exact (congrArg (Change files directories d q _) hnew).mpr (.directory hp hway)

end Disk

namespace Filing

open Disk

variable {files : Path → String → Prop} {directories : Path → Prop}

theorem gains_settle {d : Disk} {p : Path} {made : Except Obstacle Disk}
    (h : ∀ d', made = .ok d' → Gains files directories d d') :
    Gains files directories d (outcome (settle p made) d).2 := by
  unfold settle
  split
  · exact h _ rfl
  · exact refl_of (Gains files directories) d
  · rw [outcome_bind]
    have hlook : (outcome (isDirectory p) d).2 = d := by
      unfold isDirectory
      rw [outcome_get_bind]
      cases d.isDirectory p <;> rfl
    rcases ho : outcome (isDirectory p) d with ⟨e | b, d'⟩ <;> rw [ho] at hlook
    · exact hlook ▸ refl_of (Gains files directories) d
    · obtain rfl : d' = d := hlook
      cases b <;> exact refl_of (Gains files directories) d'

/-- Directories are made on the way of the path only. -/
theorem keeps_makeDirectories {p : Path} (hp : directories p) (p' : Path)
    (hstart : p'.start = p.start)
    (hnames : p'.names <+: p.names) : Keeps (Gains files directories) (makeDirectories p') := by
  intro d
  have hmake (d : Disk) :
      Gains files directories d (outcome (settle p' (d.makeDirectory p')) d).2 :=
    gains_settle fun d' h => gains_makeDirectory h hp hstart hnames
  rw [makeDirectories, outcome_get_bind]
  split
  · next hmissing =>
      split
      · exact refl_of (Gains files directories) d
      · next hne =>
          have hparent := keeps_makeDirectories hp p'.parent hstart
            ((List.dropLast_prefix _).trans hnames)
          refine (hparent.bind fun _ => ?_) d
          intro d'
          rw [outcome_get_bind]
          exact hmake d'
  · exact hmake d
termination_by p'.names.length
decreasing_by exact Path.parent_names_length (by assumption)

/-- Where a path leads to no directory, it leads into one. -/
theorem exists_up_of_locate {d : Disk} {p : Path} {place : Place} (h : d.locate p = .ok place)
    (hne : p.names ≠ []) (hother : d.tree.standing place ≠ .directory) :
    ∃ up name, place = up ++ [name] ∧ d.tree.standing up = .directory := by
  unfold locate at h
  split at h
  · cases h
  · exact (FileTree.standing_of_walk h hne).resolve_left hother

/-- Either nothing happens, or a file comes to stand where nothing stood. -/
theorem outcome_create {p : Path} (hne : p.names ≠ []) (bytes : List UInt8) (d : Disk) :
    (∃ fault, outcome (create p (.file bytes)) d = (.error fault, d)) ∨
      ∃ place tree, d.locate p = .ok place ∧ place ≠ [] ∧ d.tree.standing place = .nothing ∧
        outcome (create p (.file bytes)) d = (.ok (), d.withTree tree) ∧
        ∀ q, tree.standing q = if q = place then .file bytes else d.tree.standing q := by
  unfold create
  rw [outcome_get_bind]
  cases hplace : d.locate p with
  | error obstacle => exact .inl ⟨_, rfl⟩
  | ok place =>
      dsimp only
      by_cases hsome : (d.tree.get? place).isSome = true
      · rw [if_pos hsome]
        exact .inl ⟨_, rfl⟩
      · rw [if_neg hsome]
        have hnothing : d.tree.standing place = .nothing :=
          FileTree.get?_eq_none_iff.1 (Option.not_isSome_iff_eq_none.1 hsome)
        have hother : d.tree.standing place ≠ .directory := hnothing ▸ Standing.nothing_ne_directory
        obtain ⟨up, name, rfl, hup⟩ := exists_up_of_locate hplace hne hother
        refine .inr ⟨_, _, rfl, by simp, hnothing, rfl, fun q => ?_⟩
        exact FileTree.standing_put hup hother (FileTree.isLeaf_file bytes) q

/-- Either nothing happens, or a file leaves its place and comes to stand at another one, where no
directory stood. -/
theorem outcome_move {source : Path} (target : Path) {d : Disk} {start : Place} {bytes : List UInt8}
    (hsource : d.locate source = .ok start) (hne : start ≠ [])
    (hfile : d.tree.standing start = .file bytes) :
    (∃ fault, outcome (move source target) d = (.error fault, d)) ∨
      ∃ tree, d.tree.standing (d.place target) ≠ .directory ∧
        outcome (move source target) d = (.ok (), d.withTree tree) ∧
        ∀ q, tree.standing q = if q = d.place target then .file bytes
          else if q = start then .nothing else d.tree.standing q := by
  have hget : d.tree.get? start = some (.file bytes) := FileTree.standing_eq_file_iff.1 hfile
  unfold move
  rw [outcome_get_bind, hsource]
  cases htarget : d.locate target with
  | error obstacle => exact .inl ⟨_, rfl⟩
  | ok place =>
      dsimp only
      split
      · exact .inl ⟨_, rfl⟩
      · next hname =>
          rw [hget]
          have hnames : target.names ≠ [] := by
            intro hnil
            simp [Path.name, hnil] at hname
          obtain rfl : place = d.place target := eq_place_of_locate htarget
          have hmoved (hother : d.tree.standing (d.place target) ≠ .directory) (q : Place) :
              ((d.tree.erase start).put (d.place target) (.file bytes)).standing q =
                if q = d.place target then .file bytes
                else if q = start then .nothing else d.tree.standing q := by
            obtain ⟨up, name, heq, hup⟩ := exists_up_of_locate htarget hnames hother
            rw [heq] at hother ⊢
            exact FileTree.standing_put_erase hfile hne hup hother q
          cases hold : d.tree.get? (d.place target) with
          | none =>
              have hother : d.tree.standing (d.place target) ≠ .directory := by
                rw [FileTree.get?_eq_none_iff.1 hold]
                exact Standing.nothing_ne_directory
              exact .inr ⟨_, hother, rfl, hmoved hother⟩
          | some t =>
              cases t with
              | directory entries => exact .inl ⟨_, rfl⟩
              | file old =>
                  have hother : d.tree.standing (d.place target) ≠ .directory := by
                    rw [FileTree.standing_eq_file_iff.2 hold]
                    exact Standing.file_ne_directory old
                  exact .inr ⟨_, hother, rfl, hmoved hother⟩

/-- Writing a file, once the directories above it are there. -/
def writeInto (draft p : Path) (text : String) : Filing Unit := do
  create draft (.ofText text)
  try move draft p
  catch fault =>
    discard draft
    throw fault

theorem write_eq (nonce : String) (p : Path) (text : String) : write nonce p text = (do
    makeDirectories p.parent
    let d ← get
    writeInto ((p.parent.absolute d.working).join ⟨.here, [draftName nonce p]⟩) p text) := rfl

/-- Either nothing has changed in the end, or the file stands in its place and that is all. -/
theorem outcome_writeInto {draft : Path} (hne : draft.names ≠ []) (p : Path) (text : String)
    (d : Disk) :
    (∃ fault, (outcome (writeInto draft p text) d).1 = .error fault ∧
        d.Same (outcome (writeInto draft p text) d).2) ∨
      (outcome (writeInto draft p text) d).1 = .ok () ∧
        Puts p text d (outcome (writeInto draft p text) d).2 := by
  unfold writeInto
  rw [outcome_bind]
  rcases outcome_create hne text.toUTF8.toList d with ⟨fault, hfault⟩ |
    ⟨start, tree, hstart, hstartne, hnothing, hcreated, hstanding⟩
  · rw [FileTree.ofText, hfault]
    exact .inl ⟨fault, rfl, rfl, fun _ => rfl⟩
  · rw [FileTree.ofText, hcreated]
    dsimp only
    have hdirs (q : Place) (hq : d.tree.standing q = .directory) :
        tree.standing q = .directory := by
      have hother : q ≠ start := by
        rintro rfl
        rw [hnothing] at hq
        cases hq
      rw [hstanding, if_neg hother, hq]
    have hagain : (d.withTree tree).locate draft = .ok start :=
      locate_of_directories d (d.withTree tree) rfl hdirs hstart
    have hfile : (d.withTree tree).tree.standing start = .file text.toUTF8.toList := by
      rw [show (d.withTree tree).tree = tree from rfl, hstanding, if_pos rfl]
    rw [outcome_tryCatch]
    rcases outcome_move p hagain hstartne hfile with ⟨fault, hfault⟩ |
      ⟨tree', hfree, hmoved, hstanding'⟩
    · rw [hfault]
      have hdiscard : (outcome (do discard draft; throw fault : Filing Unit) (d.withTree tree)).2 =
          d.withTree (tree.erase start) := by
        have hyields :
            Yields (discard draft) (d.withTree tree) () (d.withTree (tree.erase start)) :=
          yields_modify.2 (by rw [hagain]; rfl)
        have houtcome : outcome (discard draft) (d.withTree tree) =
            (.ok (), d.withTree (tree.erase start)) := hyields
        rw [outcome_bind, houtcome]
        rfl
      refine .inl ⟨fault, rfl, ?_⟩
      refine hdiscard ▸ ⟨rfl, fun q => ?_⟩
      refine (FileTree.standing_erase hfile hstartne q).trans ?_
      split
      · next hq => rw [hq, hnothing]
      · next hq => exact (hstanding q).trans (if_neg hq)
    · rw [hmoved]
      refine .inr ⟨rfl, rfl, fun hdir => hfree (hdirs _ hdir), fun q => ?_⟩
      rw [show d.place p = (d.withTree tree).place p from rfl]
      refine (hstanding' q).trans ?_
      split
      · rfl
      · split
        · next hq => rw [hq, hnothing]
        · next hq => exact (hstanding q).trans (if_neg hq)

/-- A file is written unless directories cannot be made, and otherwise nothing else happens. -/
theorem outcome_write (nonce : String) (p : Path) (text : String) (d : Disk) :
    ((∃ fault, (outcome (write nonce p text) d).1 = .error fault) ∧
        Gains (fun _ _ => False) (p.parent = ·) d (outcome (write nonce p text) d).2) ∨
      (outcome (write nonce p text) d).1 = .ok () ∧ ∃ d₁,
        Gains (fun _ _ => False) (p.parent = ·) d d₁ ∧
        Puts p text d₁ (outcome (write nonce p text) d).2 := by
  have hmade : Keeps (Gains (fun _ _ => False) (p.parent = ·)) (makeDirectories p.parent) :=
    keeps_makeDirectories rfl p.parent rfl (List.prefix_refl _)
  rw [write_eq, outcome_bind]
  have h₁ := hmade d
  rcases ho : outcome (makeDirectories p.parent) d with ⟨fault | u, d₁⟩ <;> rw [ho] at h₁
  · exact .inl ⟨⟨fault, rfl⟩, h₁⟩
  · dsimp only
    rw [outcome_get_bind]
    have hne : ((p.parent.absolute d₁.working).join ⟨.here, [draftName nonce p]⟩).names ≠ [] := by
      simp
    rcases outcome_writeInto hne p text d₁ with ⟨fault, hfault, hsame⟩ | ⟨hok, hputs⟩
    · exact .inl ⟨⟨fault, hfault⟩, trans_of (Gains _ _) h₁ hsame.gains⟩
    · exact .inr ⟨hok, d₁, h₁, hputs⟩

/-- However the writing of a file ends, nothing else has come to stand anywhere. -/
theorem keeps_write (nonce : String) {p : Path} {text : String} (hp : files p text)
    (hparent : directories p.parent) : Keeps (Gains files directories) (write nonce p text) := by
  intro d
  have hmono {d d' : Disk} (h : Gains (fun _ _ => False) (p.parent = ·) d d') :
      Gains files directories d d' :=
    h.mono (fun _ _ => False.elim) (by rintro _ rfl; exact hparent)
  rcases outcome_write nonce p text d with ⟨-, hgains⟩ | ⟨-, d₁, hgains, hputs⟩
  · exact hmono hgains
  · exact trans_of (Gains files directories) (hmono hgains) (hputs.gains hp)

end Filing

end OpenApiClient
