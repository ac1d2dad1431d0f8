import OpenApiClient.Proofs.Paths

/-!
# What stands in the way of a file

Directories are made along a path unless a file stands where one of them has to be, and a file is
written unless a directory stands at its place.  Otherwise only names can be at fault, which may be
no names of files, or a working directory that is not there.
-/

namespace OpenApiClient

open Walk

namespace FileTree

variable {t : FileTree} {here up place : Place} {names names' : List String} {name : String}

theorem walk_append (t : FileTree) (here : Place) (names names' : List String) :
    t.walk here (names ++ names') = t.walk here names >>= fun place => t.walk place names' := by
  induction names generalizing here with
  | nil => rfl
  | cons name names ih =>
      rw [List.cons_append, walk, walk]
      cases t.get? here with
      | none => rfl
      | some t' =>
          cases t' with
          | file bytes => rfl
          | directory entries =>
              dsimp only
              split_ifs
              · rfl
              · exact ih _
              · exact ih _

/-- Where names are short and no file stands on the way, a walk comes to its end unless something is
missing. -/
theorem walk_eq_ok_or_missing (hshort : ∀ n ∈ names, n.utf8ByteSize ≤ Path.nameLimit)
    (hfree : ∀ walked bytes, walked <+: names →
      t.standing (Path.resolveFrom here walked) ≠ .file bytes) :
    (∃ place, t.walk here names = .ok place) ∨ t.walk here names = .error .missing := by
  induction names generalizing here with
  | nil => exact .inl ⟨here, rfl⟩
  | cons name names ih =>
      have hlength := Nat.not_lt.2 (hshort name List.mem_cons_self)
      have hhere := fun bytes => hfree [] bytes List.nil_prefix
      rw [walk]
      cases hget : t.get? here with
      | none => exact .inr rfl
      | some t' =>
          cases t' with
          | file bytes => exact absurd (standing_eq_file_iff.2 hget) (hhere bytes)
          | directory entries =>
              dsimp only
              rw [if_neg hlength, ← apply_ite (fun place => t.walk place names)]
              refine ih (fun n hn => hshort n (List.mem_cons_of_mem name hn)) ?_
              intro walked bytes hwalked
              have hstep := hfree (name :: walked) bytes (List.cons_prefix_cons.2 ⟨rfl, hwalked⟩)
              rw [Path.resolveFrom] at hstep
              split_ifs at hstep ⊢ <;> exact hstep

/-- A walk that came to a directory goes on with one more name. -/
theorem walk_concat_of_directory (h : t.walk here names = .ok up) (hup : t.standing up = .directory)
    (hshort : name.utf8ByteSize ≤ Path.nameLimit) :
    ∃ place, t.walk here (names ++ [name]) = .ok place := by
  refine ⟨if name = ".." then up.dropLast else up ++ [name], ?_⟩
  rw [walk_append, h]
  exact walk_cons_eq_ok_iff.2 ⟨hup, hshort, rfl⟩

/-- The names of a directory lead to it. -/
theorem walk_of_standing (h : t.standing (here ++ names) = .directory)
    (hshort : ∀ n ∈ names, n.utf8ByteSize ≤ Path.nameLimit) (hdots : ".." ∉ names) :
    t.walk here names = .ok (here ++ names) := by
  induction names generalizing here with
  | nil => exact congrArg Except.ok (List.append_nil here).symm
  | cons name names ih =>
      obtain ⟨hname, hnames⟩ := not_or.1 (mt List.mem_cons.2 hdots)
      have hhere : t.standing here = .directory :=
        standing_of_append (by rw [h]; exact Standing.nothing_ne_directory.symm)
      rw [List.append_cons] at h ⊢
      refine walk_cons_eq_ok_iff.2 ⟨hhere, hshort name List.mem_cons_self, ?_⟩
      rw [if_neg (Ne.symm hname)]
      exact ih h (fun n hn => hshort n (List.mem_cons_of_mem name hn)) hnames

/-- The names of a walk are short. -/
theorem short_of_walk (h : t.walk here names = .ok place) :
    ∀ n ∈ names, n.utf8ByteSize ≤ Path.nameLimit := by
  induction names generalizing here with
  | nil => exact fun n hn => absurd hn List.not_mem_nil
  | cons name names ih =>
      obtain ⟨-, hlength, hrest⟩ := walk_cons_eq_ok_iff.1 h
      exact List.forall_mem_cons.2 ⟨hlength, ih hrest⟩

end FileTree

namespace Path

theorem names_eq_concat {p : Path} (h : p.names ≠ []) : p.names = p.parent.names ++ [p.name] :=
  (congrArg names (join_parent_name h)).symm

theorem name_mem {p : Path} (h : p.names ≠ []) : p.name ∈ p.names :=
  names_eq_concat h ▸ List.mem_append_right _ List.mem_cons_self

theorem length_resolveFrom_le (base names : List String) :
    (resolveFrom base names).length ≤ base.length + names.length := by
  induction names generalizing base with
  | nil => exact Nat.le_refl _
  | cons name names ih =>
      rw [resolveFrom, List.length_cons]
      split
      · have hup := ih base.dropLast
        rw [List.length_dropLast] at hup
        omega
      · have hdown := ih (base ++ [name])
        rw [List.length_append, List.length_singleton] at hdown
        omega

/-- Names that lead nowhere but down are no dots. -/
theorem notMem_of_resolveFrom_eq {base names : List String}
    (h : resolveFrom base names = base ++ names) :
    ".." ∉ names := by
  induction names generalizing base with
  | nil => exact List.not_mem_nil
  | cons name names ih =>
      rw [resolveFrom] at h
      split at h
      · have hlength := congrArg List.length h
        have hle := length_resolveFrom_le base.dropLast names
        rw [List.length_append, List.length_cons] at hlength
        rw [List.length_dropLast] at hle
        omega
      · next hname =>
          have hnames := ih (h.trans (List.append_cons base name names))
          exact fun hmem => (List.mem_cons.1 hmem).elim (fun heq => hname heq.symm) hnames

/-- A place is made of names from which it is reached. -/
theorem mem_or_of_mem_resolveFrom {base names : List String} {n : String}
    (h : n ∈ resolveFrom base names) : n ∈ base ∨ n ∈ names ∧ n ≠ ".." := by
  induction names generalizing base with
  | nil => exact .inl h
  | cons name names ih =>
      rw [resolveFrom] at h
      split at h
      · exact (ih h).imp (List.dropLast_sublist base).mem (And.imp_left (List.mem_cons_of_mem name))
      · next hname =>
          rcases ih h with hbase | ⟨hnames, hdots⟩
          · rcases List.mem_append.1 hbase with hbase | hlast
            · exact .inl hbase
            · obtain rfl := List.mem_singleton.1 hlast
              exact .inr ⟨List.mem_cons_self, hname⟩
          · exact .inr ⟨List.mem_cons_of_mem name hnames, hdots⟩

end Path

namespace Disk

variable {d d' : Disk} {p : Path} {q : Place} {bytes : List UInt8} {folders : Path → Prop}

/-- Directories have been made on the way of some paths, where nothing stood. -/
abbrev GainsDirectories (folders : Path → Prop) : Disk → Disk → Prop :=
  Gains (fun _ _ => False) folders

theorem GainsDirectories.cases (h : GainsDirectories folders d d') (q : Place) :
    d'.tree.standing q = d.tree.standing q ∨ d.tree.standing q = .nothing ∧
      d'.tree.standing q = .directory ∧ ∃ p, folders p ∧ d.OnTheWay p q := by
  have hchange := h.change q
  generalize d.tree.standing q = before at hchange ⊢
  generalize d'.tree.standing q = after at hchange ⊢
  cases hchange with
  | same => exact .inl rfl
  | file hp => exact hp.elim
  | directory hp hq => exact .inr ⟨rfl, rfl, _, hp, hq⟩

theorem GainsDirectories.standing_eq_file_iff (h : GainsDirectories folders d d') :
    d'.tree.standing q = .file bytes ↔ d.tree.standing q = .file bytes := by
  rcases h.cases q with heq | ⟨hbefore, hafter, -⟩
  · rw [heq]
  · simp [hbefore, hafter]

theorem GainsDirectories.standing_directory (h : GainsDirectories folders d d')
    (hq : d.tree.standing q = .directory) : d'.tree.standing q = .directory := by
  rcases h.cases q with heq | ⟨-, hafter, -⟩
  · rw [heq, hq]
  · exact hafter

theorem GainsDirectories.locate (h : GainsDirectories folders d d') {place : Place}
    (hp : d.locate p = .ok place) : d'.locate p = .ok place :=
  locate_of_directories d d' h.working (fun _ => h.standing_directory) hp

/-- The working directory is a directory, and its names lead to it. -/
structure IsSettled (d : Disk) : Prop where
  leads : d.locate ⟨.root, d.working⟩ = .ok d.working
  standing : d.tree.standing d.working = .directory

theorem IsSettled.of_gains (h : GainsDirectories folders d d') (hd : d.IsSettled) :
    d'.IsSettled where
  leads := h.working ▸ h.locate hd.leads
  standing := h.working ▸ h.standing_directory hd.standing

theorem IsSettled.standing_start (h : d.IsSettled) (start : Path.Start) :
    d.tree.standing (d.place ⟨start, []⟩) = .directory := by
  have hroot : d.tree.standing [] = .directory := by
    cases hworking : d.working with
    | nil => exact hworking ▸ h.standing
    | cons name rest =>
        have hstanding : d.tree.standing ([] ++ name :: rest) ≠ .nothing := by
          rw [List.nil_append, ← hworking, h.standing]
          exact Standing.nothing_ne_directory.symm
        exact FileTree.standing_of_append hstanding
  cases start with
  | here => exact h.standing
  | root => exact hroot
  | doubleRoot => exact hroot

theorem IsSettled.hasNul (h : d.IsSettled) : ∀ n ∈ d.working, '\x00' ∉ n.toList := by
  have hleads := h.leads
  unfold locate at hleads
  split at hleads
  · cases hleads
  · next hnul => simpa [Path.hasNul] using hnul

theorem IsSettled.walk (h : d.IsSettled) : d.tree.walk [] d.working = .ok d.working := by
  have hleads := h.leads
  unfold locate at hleads
  split at hleads
  · cases hleads
  · exact hleads

theorem IsSettled.notMem (h : d.IsSettled) : ".." ∉ d.working :=
  Path.notMem_of_resolveFrom_eq (FileTree.eq_resolveFrom_of_walk h.walk).symm

/-- Directories can be made along a path: it starts at a directory, its names are names of files,
and on its way stands no file. -/
structure Passable (d : Disk) (p : Path) : Prop where
  start : d.tree.standing (d.place ⟨p.start, []⟩) = .directory
  short : ∀ n ∈ p.names, n.utf8ByteSize ≤ Path.nameLimit
  hasNul : p.hasNul = false
  free : ∀ q bytes, d.OnTheWay p q → d.tree.standing q ≠ .file bytes

theorem OnTheWay.of_gains (h : GainsDirectories folders d d') :
    d'.OnTheWay p q ↔ d.OnTheWay p q := by
  unfold OnTheWay
  simp only [place_eq_of_working h.working]

theorem onTheWay_place (d : Disk) (p : Path) : d.OnTheWay p (d.place p) :=
  ⟨p.names, List.prefix_refl _, List.prefix_refl _⟩

theorem OnTheWay.of_parent (h : d.OnTheWay p.parent q) : d.OnTheWay p q := by
  obtain ⟨names, hnames, hq⟩ := h
  exact ⟨names, hnames.trans (List.dropLast_prefix _), hq⟩

theorem Passable.of_gains (h : GainsDirectories folders d d') (hp : d.Passable p) :
    d'.Passable p where
  start := by
    rw [place_eq_of_working h.working]
    exact h.standing_directory hp.start
  short := hp.short
  hasNul := hp.hasNul
  free q bytes hq := by
    rw [ne_eq, h.standing_eq_file_iff]
    exact hp.free q bytes ((OnTheWay.of_gains h).1 hq)

theorem Passable.parent (h : d.Passable p) : d.Passable p.parent where
  start := h.start
  short n hn := h.short n ((List.dropLast_prefix _).subset hn)
  hasNul := by
    have hnul := h.hasNul
    unfold Path.hasNul at hnul ⊢
    rw [List.any_eq_false] at hnul ⊢
    exact fun n hn => hnul n ((List.dropLast_prefix _).subset hn)
  free q bytes hq := h.free q bytes hq.of_parent

/-- Where directories can be made, a path leads to its place or something is missing. -/
theorem Passable.locate (h : d.Passable p) :
    d.locate p = .ok (d.place p) ∨ d.locate p = .error .missing := by
  have hlocate : d.locate p = d.tree.walk (if p.start = .here then d.working else []) p.names :=
    if_neg (by simp [h.hasNul])
  have hfree (walked : List String) (bytes : List UInt8) (hwalked : walked <+: p.names) :
      d.tree.standing (Path.resolveFrom (if p.start = .here then d.working else []) walked) ≠
        .file bytes := h.free _ bytes ⟨walked, hwalked, List.prefix_refl _⟩
  have hcases := FileTree.walk_eq_ok_or_missing h.short hfree
  rw [← hlocate] at hcases
  refine hcases.imp_left ?_
  rintro ⟨place, hplace⟩
  rw [hplace, eq_place_of_locate hplace]

theorem Passable.standing_place (h : d.Passable p) :
    d.tree.standing (d.place p) = .nothing ∨ d.tree.standing (d.place p) = .directory := by
  have hfree := fun bytes => h.free (d.place p) bytes (d.onTheWay_place p)
  cases hstanding : d.tree.standing (d.place p) with
  | nothing => exact .inl rfl
  | directory => exact .inr rfl
  | file bytes => exact absurd hstanding (hfree bytes)

/-- A directory stands at the end of a path, and the path leads to it. -/
structure HasDirectory (d : Disk) (p : Path) : Prop where
  leads : d.locate p = .ok (d.place p)
  standing : d.tree.standing (d.place p) = .directory

/-- A path leads on from the directory to which its parent leads. -/
theorem HasDirectory.locate (h : d.HasDirectory p.parent) (hne : p.names ≠ [])
    (hnul : p.hasNul = false)
    (hshort : p.name.utf8ByteSize ≤ Path.nameLimit) : d.locate p = .ok (d.place p) := by
  have hwalk : d.tree.walk (if p.start = .here then d.working else []) p.parent.names =
      .ok (d.place p.parent) := by
    have hleads := h.leads
    unfold Disk.locate at hleads
    split at hleads
    · cases hleads
    · exact hleads
  have hnames := Path.names_eq_concat hne
  obtain ⟨place, hstep⟩ := FileTree.walk_concat_of_directory hwalk h.standing hshort
  have hlocate : d.locate p = .ok place := by
    unfold Disk.locate
    rw [if_neg (by simp [hnul]), hnames]
    exact hstep
  rw [hlocate, eq_place_of_locate hlocate]

/-- The names of a place to which a file's name can be added: they are short, and lead down only. -/
def IsOrderly (place : Place) : Prop :=
  ∀ n ∈ place, n.utf8ByteSize ≤ Path.nameLimit ∧ '\x00' ∉ n.toList ∧ n ≠ ".."

theorem Passable.isOrderly_place (hd : d.IsSettled) (h : d.Passable p) : IsOrderly (d.place p) := by
  intro n hn
  have hbase : n ∈ (if p.start = .here then d.working else []) → n ∈ d.working := by
    split
    · exact id
    · exact fun hnil => absurd hnil List.not_mem_nil
  rcases (Path.mem_or_of_mem_resolveFrom hn).imp_left hbase with hworking | ⟨hnames, hdots⟩
  · exact ⟨FileTree.short_of_walk hd.walk n hworking, hd.hasNul n hworking,
      fun heq => hd.notMem (heq ▸ hworking)⟩
  · have hnul := h.hasNul
    rw [Path.hasNul, List.any_eq_false] at hnul
    exact ⟨h.short n hnames, fun hc => hnul n hnames (List.contains_iff_mem.2 hc), hdots⟩

/-- Below a directory, a path of orderly names leads to its place. -/
theorem locate_of_isOrderly {up : Place} {name : String} (hup : d.tree.standing up = .directory)
    (h : IsOrderly (up ++ [name])) {start : Path.Start} (hstart : start ≠ .here) :
    d.locate ⟨start, up ++ [name]⟩ = .ok (up ++ [name]) := by
  have hnul : Path.hasNul ⟨start, up ++ [name]⟩ = false := by
    rw [Path.hasNul, List.any_eq_false]
    exact fun n hn hc => (h n hn).2.1 (List.contains_iff_mem.1 hc)
  have hdots : ".." ∉ up ++ [name] := fun hn => (h _ hn).2.2 rfl
  have hwalk : d.tree.walk [] up = .ok up :=
    FileTree.walk_of_standing hup (fun n hn => (h n (List.mem_append_left _ hn)).1)
      fun hn => hdots (List.mem_append_left _ hn)
  obtain ⟨place, hdown⟩ := FileTree.walk_concat_of_directory hwalk hup
    (h name (List.mem_append_right _ List.mem_cons_self)).1
  have hlocate : d.locate ⟨start, up ++ [name]⟩ = .ok place := by
    unfold locate
    rw [hnul, if_neg Bool.false_ne_true, if_neg hstart]
    exact hdown
  rw [hlocate, eq_place_of_locate hlocate, Disk.place, if_neg hstart,
    Path.resolveFrom_of_notMem hdots,
    List.nil_append]

end Disk

namespace Filing

open Disk

variable {d : Disk} {p : Path}

theorem outcome_isDirectory (p : Path) (d : Disk) :
    outcome (isDirectory p) d = (d.isDirectory p, d) := by
  unfold isDirectory
  rw [outcome_get_bind]
  cases d.isDirectory p <;> rfl

theorem isDirectory_of_hasDirectory (h : d.HasDirectory p) : d.isDirectory p = .ok true := by
  obtain ⟨entries, hget⟩ := FileTree.standing_eq_directory_iff.1 h.standing
  have hfind : d.find p = .ok (.directory entries) := by
    unfold Disk.find
    rw [h.leads]
    dsimp only [bind, Except.bind]
    rw [hget]
  exact isDirectory_of_find hfind

/-- Where a path leads to its place, a directory stands there in the end. -/
theorem exists_settle_makeDirectory (h : d.Passable p) (hplace : d.locate p = .ok (d.place p)) :
    d.makeDirectory p ≠ .error .missing ∧
      ∃ d', outcome (settle p (d.makeDirectory p)) d = (.ok (), d') ∧ d'.HasDirectory p := by
  unfold makeDirectory
  rw [hplace]
  dsimp only [bind, Except.bind]
  rcases h.standing_place with hnothing | hdirectory
  · have hne : p.names ≠ [] := by
      intro hnil
      have hstart := h.start
      rw [← hnil] at hstart
      exact Standing.nothing_ne_directory (hnothing.symm.trans hstart)
    have hother : d.tree.standing (d.place p) ≠ .directory :=
      hnothing ▸ Standing.nothing_ne_directory
    obtain ⟨up, name, heq, hup⟩ := exists_up_of_locate hplace hne hother
    have hnone : (d.tree.get? (d.place p)).isSome = false := by
      rw [FileTree.get?_eq_none_iff.2 hnothing]
      rfl
    rw [if_neg (by simp [hnone])]
    have hstanding (q : Place) : (d.tree.put (d.place p) .empty).standing q =
        if q = d.place p then .directory else d.tree.standing q := by
      rw [heq] at hother ⊢
      exact FileTree.standing_put hup hother (fun _ _ => rfl) q
    let d' := d.withTree (d.tree.put (d.place p) .empty)
    refine ⟨by simp, d', rfl, ?_, ?_⟩
    · refine locate_of_directories d d' rfl (fun q hq => ?_) hplace
      refine (hstanding q).trans ?_
      split
      · rfl
      · exact hq
    · exact (hstanding _).trans (if_pos rfl)
  · have hsome : (d.tree.get? (d.place p)).isSome = true := by
      obtain ⟨entries, hget⟩ := FileTree.standing_eq_directory_iff.1 hdirectory
      rw [hget]
      rfl
    rw [if_pos hsome]
    have hthere : d.HasDirectory p := ⟨hplace, hdirectory⟩
    refine ⟨by simp, d, ?_, hthere⟩
    change outcome (isDirectory p >>= fun b => unless b do throw (Obstacle.exists.fault p)) d = _
    rw [outcome_bind, outcome_isDirectory, isDirectory_of_hasDirectory hthere]
    rfl

/-- Directories are made where they can be. -/
theorem exists_makeDirectories {d : Disk} {p : Path} (h : d.Passable p) :
    ∃ d', outcome (makeDirectories p) d = (.ok (), d') ∧ d'.HasDirectory p := by
  rw [makeDirectories, outcome_get_bind]
  rcases h.locate with hplace | hmissing
  · obtain ⟨hmade, hsettled⟩ := exists_settle_makeDirectory h hplace
    split
    · next heq => exact absurd heq hmade
    · exact hsettled
  · have hmade : d.makeDirectory p = .error .missing := by
      rw [makeDirectory, hmissing]
      rfl
    have hne : p.names ≠ [] := by
      intro hnil
      have hstart : d.locate p = .ok (if p.start = .here then d.working else []) := by
        unfold Disk.locate
        rw [if_neg (by simp [h.hasNul]), hnil]
        rfl
      rw [hstart] at hmissing
      cases hmissing
    rw [hmade]
    dsimp only
    rw [dif_neg hne]
    obtain ⟨d₁, hparent, hup⟩ := exists_makeDirectories h.parent
    have hgains : Disk.GainsDirectories (p.parent = ·) d d₁ := by
      have hkeeps : Keeps (GainsDirectories (p.parent = ·)) (makeDirectories p.parent) :=
        keeps_makeDirectories rfl p.parent rfl (List.prefix_refl _)
      exact hkeeps.of_yields hparent
    have hp := h.of_gains hgains
    have hlast : p.name.utf8ByteSize ≤ Path.nameLimit := h.short _ (Path.name_mem hne)
    obtain ⟨-, d₂, hsettled, hthere⟩ :=
      exists_settle_makeDirectory hp (hup.locate hne h.hasNul hlast)
    refine ⟨d₂, ?_, hthere⟩
    rw [outcome_bind, hparent]
    exact hsettled
termination_by p.names.length
decreasing_by exact Path.parent_names_length hne

theorem outcome_create_of_free {place : Place} (hplace : d.locate p = .ok place)
    (hfree : d.tree.standing place = .nothing) (t : FileTree) :
    outcome (create p t) d = (.ok (), d.withTree (d.tree.put place t)) := by
  unfold create
  rw [outcome_get_bind, hplace]
  dsimp only
  rw [if_neg (by rw [FileTree.get?_eq_none_iff.2 hfree]; simp)]
  rfl

theorem exists_move_of_free {source target : Path} {start place : Place} {bytes : List UInt8}
    (hsource : d.locate source = .ok start) (hfile : d.tree.standing start = .file bytes)
    (htarget : d.locate target = .ok place) (hplace : d.tree.standing place ≠ .directory)
    (hname : target.name ≠ "" ∧ target.name ≠ "..") :
    ∃ d', outcome (move source target) d = (.ok (), d') := by
  unfold move
  rw [outcome_get_bind, hsource, htarget]
  dsimp only
  rw [if_neg (by simp [hname]), FileTree.standing_eq_file_iff.1 hfile]
  cases hget : d.tree.get? place with
  | none => exact ⟨_, rfl⟩
  | some t =>
      cases t with
      | file old => exact ⟨_, rfl⟩
      | directory entries =>
          exact absurd (FileTree.standing_eq_directory_iff.2 ⟨entries, hget⟩) hplace

/-- A file is written where its first name leads to a free place and its own to no directory. -/
theorem exists_writeInto_of_free {draft : Path} {start place : Place} (hne : draft.names ≠ [])
    (hdraft : d.locate draft = .ok start) (hfree : d.tree.standing start = .nothing)
    (hplace : d.locate p = .ok place) (hother : d.tree.standing place ≠ .directory)
    (hname : p.name ≠ "" ∧ p.name ≠ "..") (text : String) :
    ∃ d', outcome (writeInto draft p text) d = (.ok (), d') := by
  have hcreate := outcome_create_of_free hdraft hfree (.file text.toUTF8.toList)
  rcases outcome_create hne text.toUTF8.toList d with ⟨fault, hfault⟩ |
    ⟨start', tree, hstart, -, -, hcreated, hstanding⟩
  · rw [hcreate] at hfault
    cases hfault
  · obtain rfl : start' = start := Except.ok.inj (hstart.symm.trans hdraft)
    have hdirs (q : Place) (hq : d.tree.standing q = .directory) :
        tree.standing q = .directory := by
      rw [hstanding, if_neg, hq]
      rintro rfl
      exact Standing.nothing_ne_directory (hfree.symm.trans hq)
    have hkept {p' : Path} {q : Place} (h : d.locate p' = .ok q) :
        (d.withTree tree).locate p' = .ok q :=
      locate_of_directories d (d.withTree tree) rfl hdirs h
    have hfile : (d.withTree tree).tree.standing start' = .file text.toUTF8.toList :=
      (hstanding start').trans (if_pos rfl)
    have hother' : (d.withTree tree).tree.standing place ≠ .directory := by
      refine (hstanding place).symm ▸ ?_
      split
      · exact Standing.file_ne_directory _
      · exact hother
    obtain ⟨d', hmoved⟩ := exists_move_of_free (hkept hdraft) hfile (hkept hplace) hother' hname
    refine ⟨d', ?_⟩
    rw [writeInto, outcome_bind, FileTree.ofText, hcreated]
    dsimp only
    rw [outcome_tryCatch, hmoved]

/-- The place beside its own at which a file is written first. -/
def draftPlace (nonce : String) (d : Disk) (p : Path) : Place :=
  d.place p.parent ++ [draftName nonce p]

/-- What no file can be called. -/
def IsUnfit (name : String) : Prop :=
  name = "" ∨ Path.nameLimit < name.utf8ByteSize ∨ '\x00' ∈ name.toList

/-- What keeps a file from being written at the end of a path. -/
inductive Hindered (nonce : String) (d : Disk) (p : Path) : Prop
  /-- A file stands where a directory is needed. -/
  | file {q : Place} {bytes : List UInt8} (hq : d.OnTheWay p.parent q)
      (hfile : d.tree.standing q = .file bytes)
  /-- A directory stands where the file must go, or is made there on the way to it. -/
  | directory (h : d.tree.standing (d.place p) = .directory ∨ d.OnTheWay p.parent (d.place p))
  /-- No file can be called as the path says, or as the file is called at first. -/
  | name {n : String} (hn : n ∈ p.names ∨ n = draftName nonce p) (h : IsUnfit n)
  /-- Something stands where the file is written first. -/
  | taken (h : d.tree.standing (draftPlace nonce d p) ≠ .nothing ∨
      d.OnTheWay p.parent (draftPlace nonce d p))
  /-- The working directory is not where it should be. -/
  | astray (h : ¬ d.IsSettled)

variable {nonce : String}

section Unhindered

variable (h : ¬ Hindered nonce d p)
include h

theorem isSettled_of_not_hindered : d.IsSettled := by
  by_contra hd
  exact h (.astray hd)

theorem passable_parent_of_not_hindered : d.Passable p.parent := by
  have hfit (n : String) (hn : n ∈ p.parent.names) : ¬ IsUnfit n :=
    fun hunfit => h (.name (.inl ((List.dropLast_prefix _).subset hn)) hunfit)
  refine ⟨(isSettled_of_not_hindered h).standing_start _, fun n hn => ?_, ?_,
    fun q bytes hq hfile => h (.file hq hfile)⟩
  · exact Nat.le_of_not_lt fun hlong => hfit n hn (.inr (.inl hlong))
  · rw [Path.hasNul, List.any_eq_false]
    exact fun n hn hnul => hfit n hn (.inr (.inr (List.contains_iff_mem.1 hnul)))

theorem isOrderly_draftPlace : IsOrderly (draftPlace nonce d p) := by
  have hdraft : ¬ IsUnfit (draftName nonce p) := fun hunfit => h (.name (.inr rfl) hunfit)
  intro n hn
  rcases List.mem_append.1 hn with hn | hn
  · exact (passable_parent_of_not_hindered h).isOrderly_place (isSettled_of_not_hindered h) n hn
  · rw [List.mem_singleton.1 hn]
    have hlength : 2 < (draftName nonce p).length := by
      simp only [draftName, String.length_append]
      have hending : (".tmp" : String).length = 4 := rfl
      omega
    exact ⟨Nat.le_of_not_lt fun hlong => hdraft (.inr (.inl hlong)),
      fun hnul => hdraft (.inr (.inr hnul)), (Path.isName_of_length hlength).2⟩

/-- Where nothing is in the way, a path has a last name. -/
theorem name_of_not_hindered : p.names ≠ [] ∧ p.name ≠ "" ∧ p.name ≠ ".." := by
  have hne : p.names ≠ [] := by
    intro hnil
    have hparent : p.parent = p := by
      cases p
      simp_all [Path.parent]
    exact h (.directory (.inr (by rw [hparent]; exact d.onTheWay_place p)))
  have hnames := Path.names_eq_concat hne
  refine ⟨hne, fun hempty => ?_, fun hdots => ?_⟩
  · exact h (.name (.inl (Path.name_mem hne)) (.inl hempty))
  · -- The place above a directory lies on the way to it.
    have hplace : d.place p = (d.place p.parent).dropLast := by
      rw [place, hnames, Path.resolveFrom_append, hdots]
      rfl
    refine h (.directory (.inr ⟨p.parent.names, List.prefix_refl _, ?_⟩))
    rw [hplace]
    exact List.dropLast_prefix _

variable {d₁ : Disk} (hgains : GainsDirectories (p.parent = ·) d d₁)
include hgains

theorem standing_draftPlace : d₁.tree.standing (draftPlace nonce d p) = .nothing := by
  rcases hgains.cases (draftPlace nonce d p) with heq | ⟨-, -, p', rfl, hq⟩
  · rw [heq]
    by_contra hother
    exact h (.taken (.inl hother))
  · exact absurd (.taken (.inr hq)) h

theorem standing_place_ne_directory : d₁.tree.standing (d.place p) ≠ .directory := by
  rcases hgains.cases (d.place p) with heq | ⟨-, -, p', rfl, hq⟩
  · rw [heq]
    exact fun hdirectory => h (.directory (.inl hdirectory))
  · exact absurd (.directory (.inr hq)) h

end Unhindered

/-- A file is written unless something hinders it. -/
theorem exists_write_of_not_hindered (h : ¬ Hindered nonce d p) (text : String) :
    ∃ d', outcome (write nonce p text) d = (.ok (), d') := by
  have hparent := passable_parent_of_not_hindered h
  obtain ⟨d₁, hmade, hup⟩ := exists_makeDirectories hparent
  have hgains : GainsDirectories (p.parent = ·) d d₁ := by
    have hkeeps : Keeps (GainsDirectories (p.parent = ·)) (makeDirectories p.parent) :=
      keeps_makeDirectories rfl p.parent rfl (List.prefix_refl _)
    exact hkeeps.of_yields hmade
  have hdraft : d₁.locate ((p.parent.absolute d₁.working).join ⟨.here, [draftName nonce p]⟩) =
      .ok (draftPlace nonce d p) := by
    have hplace : d₁.place p.parent = d.place p.parent := place_eq_of_working hgains.working _
    have hnames : ((p.parent.absolute d₁.working).join ⟨.here, [draftName nonce p]⟩).names =
        draftPlace nonce d p := by
      rw [Path.names_join_of_here rfl, ← place_eq_absolute, hplace]
      rfl
    have hstart : (p.parent.absolute d₁.working).start ≠ .here := by
      unfold Path.absolute
      cases p.parent.start <;> simp
    have hlocate := locate_of_isOrderly (hplace ▸ hup.standing) (isOrderly_draftPlace h) hstart
    exact (congrArg d₁.locate (congrArg (Path.mk _) hnames)).trans hlocate
  obtain ⟨hne, hname⟩ := name_of_not_hindered h
  have hfit (n : String) (hn : n ∈ p.names) : ¬ IsUnfit n :=
    fun hunfit => h (.name (.inl hn) hunfit)
  have hnul : p.hasNul = false := by
    rw [Path.hasNul, List.any_eq_false]
    exact fun n hn hc => hfit n hn (.inr (.inr (List.contains_iff_mem.1 hc)))
  have hshort := Nat.le_of_not_lt fun hlong => hfit _ (Path.name_mem hne) (.inr (.inl hlong))
  have hplace : d₁.locate p = .ok (d.place p) :=
    place_eq_of_working hgains.working p ▸ hup.locate hne hnul hshort
  obtain ⟨d', hwritten⟩ :=
    exists_writeInto_of_free (by simp) hdraft (standing_draftPlace h hgains) hplace
    (standing_place_ne_directory h hgains) hname text
  refine ⟨d', ?_⟩
  rw [write_eq, outcome_bind, hmade]
  exact hwritten

end Filing

end OpenApiClient
