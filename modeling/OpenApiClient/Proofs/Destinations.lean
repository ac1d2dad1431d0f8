import OpenApiClient.Output
import OpenApiClient.Proofs.Paths
import OpenApiClient.Proofs.Tagging

/-!
# Where the files of a library go

Every class has a file in the directory of its kind, named after the class, and with tests some
classes have one more.  These are the places to which the files are written as long as no name of a
class holds a slash; a name that holds one leads its file elsewhere.
-/

namespace OpenApiClient

open Walk

/-- A place for a file below the output directory: the directories that lead to it, and its name. -/
structure Slot where
  folder : List String
  name : String
  deriving DecidableEq

/-- How the file of a slot is named below the output directory. -/
def Slot.file (s : Slot) : String := Text.join "/" (s.folder ++ [s.name])

/-- Classes whose files are kept in one directory, and how the names of the files end. -/
structure Shelf where
  folder : List String
  ending : String
  classes : List String

/-- The slots of the classes on a shelf. -/
def Shelf.slots (s : Shelf) : List Slot := s.classes.map fun name => ⟨s.folder, name ++ s.ending⟩

namespace Library

/-- The shelves of a library. -/
def shelves (l : Library) (withTests : Bool) : List Shelf :=
  [⟨[], ".php", [l.client.name]⟩, ⟨["Managers"], ".php", l.managers.map (·.name)⟩,
    ⟨["Resources"], ".php", l.resources.map (·.name)⟩,
    ⟨["Exceptions"], ".php", l.exceptions.map (·.name)⟩] ++
  if withTests then
    [⟨["Tests", "Managers"], "Test.php", l.managers.map (·.name)⟩,
      ⟨["Tests", "Resources"], "Test.php", l.resources.map (·.name)⟩]
  else []

/-- The slots of a library, one for each class and each test. -/
def slots (l : Library) (withTests : Bool) : List Slot := (l.shelves withTests).flatMap Shelf.slots

/-- No name of a class that comes from outside holds a slash. -/
structure HasPlainNames (l : Library) : Prop where
  client : '/' ∉ l.client.name.toList
  managers : ∀ c ∈ l.managers, '/' ∉ c.name.toList
  resources : ∀ c ∈ l.resources, '/' ∉ c.name.toList

variable {l : Library} {withTests : Bool} {shelf : Shelf} {s : Slot}

theorem names_drafts (l : Library) (withTests : Bool) :
    (Php.drafts l withTests).map (·.name) = (l.slots withTests).map Slot.file := by
  have hmanagers (s : String) : "Tests/Managers/" ++ s = "Tests/" ++ ("Managers/" ++ s) := by
    rw [← String.append_assoc]
    rfl
  have hresources (s : String) : "Tests/Resources/" ++ s = "Tests/" ++ ("Resources/" ++ s) := by
    rw [← String.append_assoc]
    rfl
  unfold Php.drafts slots shelves
  cases withTests <;>
    simp [Shelf.slots, Slot.file, Text.join, Function.comp_def, String.append_assoc, hmanagers,
      hresources]

/-- The directories in which files are kept. -/
def folders : List (List String) :=
  [[], ["Managers"], ["Resources"], ["Exceptions"], ["Tests", "Managers"], ["Tests", "Resources"]]

theorem folders_plain : ∀ folder ∈ folders, ∀ name ∈ folder,
    '/' ∉ name.toList ∧ Path.isName name = true ∧ name ≠ ".." := by
  decide

theorem prefix_folders (l : Library) (withTests : Bool) :
    (l.shelves withTests).map (·.folder) <+: folders := by
  cases withTests with
  | false => exact ⟨[["Tests", "Managers"], ["Tests", "Resources"]], rfl⟩
  | true => exact List.prefix_refl _

theorem folder_mem_folders (h : shelf ∈ l.shelves withTests) : shelf.folder ∈ folders :=
  (prefix_folders l withTests).subset (List.mem_map_of_mem h)

theorem nodup_folders (l : Library) (withTests : Bool) :
    ((l.shelves withTests).map (·.folder)).Nodup :=
  List.Nodup.sublist (prefix_folders l withTests).sublist (by decide)

/-- The exceptions of a library are always the same. -/
theorem exceptions_of_ofDescription {d : Description} {s : Settings}
    (h : (ofDescription d s).1 = .ok l) :
    l.exceptions = exceptionsOf (Namespace.normalize s.baseNamespace) := by
  unfold ofDescription at h
  cases hc : Classification.ofOperations d.document s.strictOperationIds d.operations with
  | mk result c =>
      rw [hc] at h
      cases result with
      | error fault => cases h
      | ok u =>
          have hyields : Yields (ofClassification d s c) c.build l _ := yields_outcome h
          obtain ⟨made, b₁, -, h₁⟩ := yields_bind.1 hyields
          obtain ⟨r, b₂, -, h₂⟩ := yields_bind.1 h₁
          obtain ⟨v, b₃, -, hpure⟩ := yields_bind.1 h₂
          rw [(yields_pure.1 hpure).1]

/-- The slots of a library differ, since the classes of a kind do. -/
theorem nodup_slots {d : Description} {s : Settings} (h : (ofDescription d s).1 = .ok l)
    (withTests : Bool) : (l.slots withTests).Nodup := by
  have htags := followsTags_of_ok h
  have hexceptions : (l.exceptions.map (·.name)).Nodup := by
    rw [exceptions_of_ofDescription h]
    have hdistinct : [Namespace.apiException, Namespace.unexpectedResponse].Nodup := by decide
    exact hdistinct
  have hclasses : ∀ shelf ∈ l.shelves withTests, shelf.classes.Nodup := by
    have hmanagers := htags.nodup_managers
    have hresources := htags.nodup_resources
    cases withTests <;> simp [shelves, hmanagers, hresources, hexceptions]
  refine List.nodup_flatMap.2 ⟨fun shelf hshelf => ?_, ?_⟩
  · refine (hclasses shelf hshelf).map fun a b hab => ?_
    exact (String.append_left_inj _).1 (Slot.mk.inj hab).2
  · refine (List.pairwise_map.1 (nodup_folders l withTests)).imp fun {a b} hab => ?_
    intro slot ha hb
    obtain ⟨_, -, rfl⟩ := List.mem_map.1 ha
    obtain ⟨_, -, hslot⟩ := List.mem_map.1 hb
    exact hab (Slot.mk.inj hslot).1.symm

theorem exists_shelf_of_mem_slots (h : s ∈ l.slots withTests) : ∃ shelf ∈ l.shelves withTests,
    ∃ name ∈ shelf.classes, s = ⟨shelf.folder, name ++ shelf.ending⟩ := by
  obtain ⟨shelf, hshelf, hs⟩ := List.mem_flatMap.1 h
  obtain ⟨name, hname, rfl⟩ := List.mem_map.1 hs
  exact ⟨shelf, hshelf, name, hname, rfl⟩

/-- The names of files end in more than two characters other than slashes. -/
theorem ending_of_mem_shelves (h : shelf ∈ l.shelves withTests) :
    '/' ∉ shelf.ending.toList ∧ 2 < shelf.ending.length := by
  have hall : ∀ shelf ∈ l.shelves withTests, shelf.ending = ".php" ∨ shelf.ending = "Test.php" := by
    cases withTests <;> simp [shelves]
  rcases hall shelf h with heq | heq <;> rw [heq] <;> decide

theorem notMem_exceptions {d : Description} {s : Settings} (h : (ofDescription d s).1 = .ok l) :
    ∀ name ∈ l.exceptions.map (·.name), '/' ∉ name.toList := by
  have hnames :
      ∀ name ∈ [Namespace.apiException, Namespace.unexpectedResponse], '/' ∉ name.toList := by
    decide
  rw [exceptions_of_ofDescription h]
  exact hnames

/-- Names of files hold no slash as soon as those of classes hold none. -/
theorem hasPlainNames_iff {d : Description} {s : Settings} (h : (ofDescription d s).1 = .ok l)
    (withTests : Bool) :
    l.HasPlainNames ↔ ∀ s ∈ l.slots withTests, '/' ∉ s.name.toList := by
  have hname {shelf : Shelf} (hshelf : shelf ∈ l.shelves withTests) (name : String) :
      '/' ∉ (name ++ shelf.ending).toList ↔ '/' ∉ name.toList := by
    simp [(ending_of_mem_shelves hshelf).1]
  have hslots : (∀ s ∈ l.slots withTests, '/' ∉ s.name.toList) ↔
      ∀ shelf ∈ l.shelves withTests, ∀ name ∈ shelf.classes, '/' ∉ name.toList := by
    constructor
    · intro h shelf hshelf name hname'
      exact (hname hshelf name).1
        (h _ (List.mem_flatMap.2 ⟨shelf, hshelf, List.mem_map_of_mem hname'⟩))
    · intro h s hs
      obtain ⟨shelf, hshelf, name, hname', rfl⟩ := exists_shelf_of_mem_slots hs
      exact (hname hshelf name).2 (h shelf hshelf name hname')
  rw [hslots]
  have hexceptions := notMem_exceptions h
  constructor
  · rintro ⟨hclient, hmanagers, hresources⟩
    cases withTests <;> simp_all [shelves]
  · intro hall
    refine ⟨hall _ List.mem_cons_self _ (List.mem_singleton_self _), fun c hc => ?_, fun c hc => ?_⟩
    · exact hall ⟨["Managers"], ".php", l.managers.map (·.name)⟩ (by simp [shelves]) _
        (List.mem_map_of_mem hc)
    · exact hall ⟨["Resources"], ".php", l.resources.map (·.name)⟩ (by simp [shelves]) _
        (List.mem_map_of_mem hc)

end Library

namespace Slot

variable {l : Library} {withTests : Bool} {s : Slot}

theorem eq_of_append_eq {t : Slot} (h : s.folder ++ [s.name] = t.folder ++ [t.name]) : s = t := by
  obtain ⟨hfolder, hname⟩ := List.append_inj' h rfl
  cases s
  cases t
  simp_all

theorem join_concat_append (folder : List String) (name ending : String) :
    Text.join "/" (folder ++ [name ++ ending]) = Text.join "/" (folder ++ [name]) ++ ending := by
  induction folder with
  | nil => rfl
  | cons n folder ih =>
      cases folder with
      | nil => simp [Text.join, String.append_assoc]
      | cons n' folder =>
          simp only [List.cons_append, Text.join] at ih ⊢
          rw [ih, String.append_assoc, String.append_assoc, String.append_assoc]

/-- Names of directories and long names of files are names of paths. -/
theorem isName_of_mem_slots (hs : s ∈ l.slots withTests) :
    (∀ n ∈ s.folder, '/' ∉ n.toList ∧ Path.isName n = true ∧ n ≠ "..") ∧
      Path.isName s.name = true ∧ s.name ≠ ".." := by
  obtain ⟨shelf, hshelf, name, -, rfl⟩ := Library.exists_shelf_of_mem_slots hs
  refine ⟨Library.folders_plain _ (Library.folder_mem_folders hshelf), Path.isName_of_length ?_⟩
  have hending := (Library.ending_of_mem_shelves hshelf).2
  rw [String.length_append]
  omega

/-- A name without a slash is one step below its directory. -/
theorem ofString_file (hs : s ∈ l.slots withTests) (hslash : '/' ∉ s.name.toList) :
    Path.ofString s.file = ⟨.here, s.folder ++ [s.name]⟩ := by
  obtain ⟨hfolder, hname, -⟩ := isName_of_mem_slots hs
  refine Path.ofString_join (by simp) ?_ ?_
  · rw [List.forall_mem_append, List.forall_mem_singleton]
    exact ⟨fun n hn => (hfolder n hn).1, hslash⟩
  · rw [List.forall_mem_append, List.forall_mem_singleton]
    exact ⟨fun n hn => (hfolder n hn).2.1, hname⟩

theorem place_file (hs : s ∈ l.slots withTests) (hslash : '/' ∉ s.name.toList) (d : Disk)
    (root : Path) : d.place (root / s.file) = d.place root ++ s.folder ++ [s.name] := by
  obtain ⟨hfolder, -, hname⟩ := isName_of_mem_slots hs
  have hdots : ".." ∉ s.folder ++ [s.name] := by
    rw [List.mem_append, List.mem_singleton, not_or]
    exact ⟨fun h => (hfolder _ h).2.2 rfl, hname.symm⟩
  change d.place (root.join (Path.ofString s.file)) = _
  rw [ofString_file hs hslash, d.place_join_of_notMem root hdots, List.append_assoc]

/-- No path leads to a name with a slash. -/
theorem notMem_of_place_file (hs : s ∈ l.slots withTests) (d : Disk) (root : Path)
    (h : d.place (root / s.file) = d.place root ++ s.folder ++ [s.name]) : '/' ∉ s.name.toList := by
  obtain ⟨shelf, hshelf, name, -, rfl⟩ := Library.exists_shelf_of_mem_slots hs
  obtain ⟨hslash, hlength⟩ := Library.ending_of_mem_shelves hshelf
  obtain ⟨names, last, hnames, hlast, hdots⟩ := Path.exists_names_ofString_append
    (Text.join "/" (shelf.folder ++ [name])) hslash hlength
  rw [← join_concat_append] at hnames
  obtain ⟨up, hup⟩ := d.exists_place_join root hnames hdots
  obtain rfl : last = name ++ shelf.ending := by
    simpa using (List.append_inj' (hup.symm.trans h) rfl).2
  exact hlast

end Slot

namespace Php

theorem putFile_eq (name content : String) (files : List (String × String)) :
    putFile name content files = upsert name content files := by
  induction files with
  | nil => rfl
  | cons f files ih => rw [putFile, upsert, ih]

theorem keys_renderDrafts {ts : Templates} {ds : List Draft} {files made : List (String × String)}
    (h : (renderDrafts ts files ds).2 = .ok made) : made.map (·.1) = (ds.map (·.name)).foldl
      (fun found a => if found.contains a then found else found ++ [a]) (files.map (·.1)) := by
  induction ds generalizing files with
  | nil =>
      obtain rfl := Except.ok.inj h
      rfl
  | cons d ds ih =>
      rw [renderDrafts] at h
      cases hcontent : d.contentWith ts with
      | error fault =>
          rw [hcontent] at h
          cases h
      | ok content =>
          rw [hcontent] at h
          rw [ih h, putFile_eq, keys_upsert]
          simp

/-- The files of a library are named as its slots say, each name once. -/
theorem keys_render {ts : Templates} {l : Library} {withTests : Bool}
    {files : List (String × String)} (h : (render ts l withTests).2 = .ok files) :
    files.map (·.1) = ((l.slots withTests).map Slot.file).eraseDups := by
  rw [keys_renderDrafts h, ← l.names_drafts withTests]
  exact foldl_addNew _

end Php

namespace Output

/-- Each slot has the file that is written for it, in its directory and under its name, and no two
slots have the same one. -/
structure OwnPaths (d : Disk) (root : Path) (slots : List Slot) (written : List Path) : Prop where
  placed : written.map d.place = slots.map fun s => d.place root ++ s.folder ++ [s.name]
  distinct : (written.map d.place).Nodup

variable {nonce : String} {ts : Php.Templates} {l : Library} {root : Path} {withTests : Bool}
  {d d' : Disk} {written : List Path}

theorem eq_of_yields_writeFile {file : String × String} {p : Path}
    (h : Yields (writeFile nonce root file) d p d') : p = root / file.1 := by
  unfold writeFile at h
  obtain ⟨_, _, -, h₁⟩ := yields_bind.1 h
  obtain ⟨_, _, -, h₂⟩ := yields_bind.1 h₁
  exact (yields_pure.1 h₂).1

theorem exists_files_of_yields_write (h : Yields (write nonce ts l root withTests) d written d') :
    ∃ files, (Php.render ts l withTests).2 = .ok files ∧
      written = files.map fun f => root / f.1 := by
  unfold write at h
  dsimp only at h
  obtain ⟨_, d₁, -, h₁⟩ := yields_bind.1 h
  obtain ⟨files, d₂, hfiles, h₂⟩ := yields_bind.1 h₁
  obtain ⟨_, d₃, -, h₃⟩ := yields_bind.1 h₂
  obtain ⟨ps, d₄, hps, h₄⟩ := yields_bind.1 h₃
  obtain ⟨_, d₅, -, h₅⟩ := yields_bind.1 h₄
  obtain ⟨rfl, -⟩ := yields_pure.1 h₅
  refine ⟨files, ?_, ?_⟩
  · cases hrender : (Php.render ts l withTests).2 with
    | error fault =>
        rw [hrender] at hfiles
        cases hfiles
    | ok made =>
        rw [hrender] at hfiles
        cases hfiles
        rfl
  · have hsteps : List.Forall₂ (fun f p => p = root / f.1) files written :=
      (yields_mapM.1 hps).forall₂ (P := fun _ f p => p = root / f.1)
        (fun _ _ _ _ hstep => eq_of_yields_writeFile hstep) fun _ _ _ _ _ _ _ h => h
    have hmap : written.map id = files.map fun f => root / f.1 :=
      map_eq_of_forall₂ (fun _ _ h => h) hsteps
    rwa [List.map_id] at hmap

/-- Files that are written as slots say come to their own places exactly if no name of a class holds
a slash. -/
theorem ownPaths_iff_hasPlainNames {description : Description} {settings : Settings}
    (hl : (Library.ofDescription description settings).1 = .ok l)
    (h : Yields (write nonce ts l root withTests) d written d') :
    OwnPaths d root (l.slots withTests) written ↔ l.HasPlainNames := by
  obtain ⟨files, hfiles, rfl⟩ := exists_files_of_yields_write h
  have hkeys := Php.keys_render hfiles
  -- Files that are named alike are one file, so there may be less files than slots.
  have hwritten : (files.map fun f => root / f.1).map d.place =
      (((l.slots withTests).map Slot.file).eraseDups).map fun name => d.place (root / name) := by
    rw [← hkeys, List.map_map, List.map_map]
    rfl
  rw [Library.hasPlainNames_iff hl withTests]
  constructor
  · rintro ⟨hplaced, -⟩
    have hall :
        ((l.slots withTests).map Slot.file).eraseDups = (l.slots withTests).map Slot.file := by
      refine (eraseDups_sublist _).eq_of_length ?_
      have hlength := congrArg List.length (hwritten.symm.trans hplaced)
      simpa using hlength
    rw [hwritten, hall, List.map_map] at hplaced
    exact fun s hs => Slot.notMem_of_place_file hs d root (List.map_inj_left.1 hplaced s hs)
  · intro hplain
    have hnodup := Library.nodup_slots hl withTests
    have hfile : ((l.slots withTests).map Slot.file).Nodup := by
      refine hnodup.map_on fun s hs t ht heq => ?_
      have hpath := congrArg Path.ofString heq
      rw [Slot.ofString_file hs (hplain s hs), Slot.ofString_file ht (hplain t ht)] at hpath
      exact Slot.eq_of_append_eq (Path.mk.inj hpath).2
    have hplaced : (files.map fun f => root / f.1).map d.place =
        (l.slots withTests).map fun s => d.place root ++ s.folder ++ [s.name] := by
      rw [hwritten, eraseDups_eq_self hfile, List.map_map]
      exact List.map_congr_left fun s hs => Slot.place_file hs (hplain s hs) d root
    refine ⟨hplaced, ?_⟩
    rw [hplaced]
    refine hnodup.map fun s t heq => Slot.eq_of_append_eq ?_
    rw [List.append_assoc, List.append_assoc] at heq
    exact List.append_cancel_left heq

section Keeps

variable {files : Path → String → Prop} {folders : Path → Prop} {p : Path}

theorem keeps_note (level : Level) (origin message : String) :
    Keeps (Disk.Gains files folders) (Filing.note level origin message) :=
  Keeps.modify fun _ => Disk.Same.gains ⟨rfl, fun _ => rfl⟩

theorem keeps_ofExcept {α : Type} (x : Except Fault α) :
    Keeps (Disk.Gains files folders) (MonadExcept.ofExcept x : Filing α) := by
  intro d
  cases x <;> exact refl_of (Disk.Gains files folders) d

theorem keeps_isDirectory (p : Path) : Keeps (Disk.Gains files folders) (Filing.isDirectory p) :=
  Keeps.get.bind fun _ => keeps_ofExcept _

theorem keeps_ensureDirectory (hp : folders p) :
    Keeps (Disk.Gains files folders) (ensureDirectory p) := by
  refine (keeps_isDirectory p).bind fun isThere => ?_
  cases isThere with
  | true => exact Keeps.pure _
  | false =>
      have hmake : Keeps (Disk.Gains files folders) (Filing.makeDirectories p) :=
        Filing.keeps_makeDirectories hp p rfl (List.prefix_refl _)
      exact hmake.rethrow.bind fun _ => (keeps_note _ _ _).bind fun _ => Keeps.pure _

theorem keeps_writeFile (nonce : String) {root : Path} {file : String × String}
    (hfile : files (root / file.1) file.2) (hfolder : folders (root / file.1).parent) :
    Keeps (Disk.Gains files folders) (writeFile nonce root file) := by
  refine (compositional_keeps.map (keeps_ensureDirectory hfolder) _).bind fun _ => ?_
  exact (Filing.keeps_write nonce hfile hfolder).rethrow.bind fun _ => Keeps.pure _

theorem keeps_mapM {α β : Type} {f : α → Filing β} {l : List α}
    (h : ∀ a ∈ l, Keeps (Disk.Gains files folders) (f a)) :
    Keeps (Disk.Gains files folders) (l.mapM f) := by
  induction l with
  | nil => exact Keeps.pure _
  | cons a l ih =>
      rw [List.mapM_cons]
      exact (h a List.mem_cons_self).bind fun _ =>
        (ih fun a' ha' => h a' (List.mem_cons_of_mem a ha')).bind fun _ => Keeps.pure _

/-- However the writing of a library ends, it has written files of the library and has made
directories for them, and nothing else. -/
theorem keeps_write (nonce : String) {ts : Php.Templates} {l : Library} {root : Path}
    {withTests : Bool}
    (hfolders : ∀ p ∈ directories root withTests, folders p)
    (hfiles : ∀ made, (Php.render ts l withTests).2 = .ok made →
      ∀ file ∈ made, files (root / file.1) file.2 ∧ folders (root / file.1).parent) :
    Keeps (Disk.Gains files folders) (write nonce ts l root withTests) := by
  unfold write
  dsimp only
  refine (Keeps.forIn _ _ fun r _ _ => (keeps_note _ _ _).bind fun _ => Keeps.pure _).bind
    fun _ => ?_
  cases hrender : (Php.render ts l withTests).2 with
  | error fault => exact (keeps_ofExcept (.error fault)).bind_of_yields fun _ _ _ h => by cases h
  | ok made =>
      refine (keeps_ofExcept (.ok made)).bind_of_yields fun made' s s' hmade => ?_
      obtain rfl : made = made' := by cases hmade; rfl
      refine (Keeps.forIn _ _ fun p hp _ => ?_).bind fun _ => ?_
      · exact (compositional_keeps.map (keeps_ensureDirectory (hfolders p hp)) _).bind fun _ =>
          Keeps.pure _
      · refine (keeps_mapM fun file hfile => ?_).bind fun _ =>
          (keeps_note _ _ _).bind fun _ => Keeps.pure _
        obtain ⟨hcontent, hfolder⟩ := hfiles made hrender file hfile
        exact keeps_writeFile nonce hcontent hfolder

end Keeps

/-- What has changed lies below the output directory, or is a directory that was made on the way to
it. -/
def StaysBelow (root : Path) (d d' : Disk) : Prop :=
  ∀ q, d'.tree.standing q ≠ d.tree.standing q →
    d.place root <+: q ∨ d.OnTheWay root q ∧ d'.tree.standing q = .directory

theorem parent_file {s : Slot} (hs : s ∈ l.slots withTests) (hslash : '/' ∉ s.name.toList) :
    (root / s.file).parent = root.join ⟨.here, s.folder⟩ := by
  change (root.join (Path.ofString s.file)).parent = _
  rw [Slot.ofString_file hs hslash]
  simp [Path.join, Path.parent]

theorem prefix_directories (root : Path) (withTests : Bool) :
    directories root withTests <+: Library.folders.map fun folder => root.join ⟨.here, folder⟩ := by
  have hdown (p : Path) {n : String} (h : Path.ofString n = ⟨.here, [n]⟩) :
      p / n = p.join ⟨.here, [n]⟩ := congrArg p.join h
  have hmanagers (p : Path) := hdown p (show Path.ofString "Managers" = _ by decide)
  have hresources (p : Path) := hdown p (show Path.ofString "Resources" = _ by decide)
  have hexceptions := hdown root (show Path.ofString "Exceptions" = _ by decide)
  have htests := hdown root (show Path.ofString "Tests" = _ by decide)
  cases withTests with
  | false =>
      refine ⟨[root / "Tests" / "Managers", root / "Tests" / "Resources"], ?_⟩
      simp [directories, Library.folders, hmanagers, hresources, hexceptions, htests, Path.join]
  | true =>
      refine ⟨[], ?_⟩
      simp [directories, Library.folders, hmanagers, hresources, hexceptions, htests, Path.join]

theorem exists_folder_of_mem_directories {p : Path} (hp : p ∈ directories root withTests) :
    ∃ folder ∈ Library.folders, p = root.join ⟨.here, folder⟩ := by
  obtain ⟨folder, hfolder, rfl⟩ := List.mem_map.1 ((prefix_directories root withTests).subset hp)
  exact ⟨folder, hfolder, rfl⟩

/-- Without slashes in the names of classes, nothing is written outside the output directory. -/
theorem staysBelow_write {description : Description} {settings : Settings}
    (hl : (Library.ofDescription description settings).1 = .ok l) (hplain : l.HasPlainNames)
    (nonce : String) (root : Path) (withTests : Bool) (d : Disk) :
    StaysBelow root d (outcome (write nonce ts l root withTests) d).2 := by
  rw [Library.hasPlainNames_iff hl withTests] at hplain
  have hgains : Keeps (Disk.Gains (fun p _ => ∃ s ∈ l.slots withTests, p = root / s.file)
      fun p => ∃ folder ∈ Library.folders, p = root.join ⟨.here, folder⟩)
      (write nonce ts l root withTests) := by
    refine keeps_write nonce (fun p hp => exists_folder_of_mem_directories hp) ?_
    intro made hmade file hfile
    have hmem : file.1 ∈ (l.slots withTests).map Slot.file :=
      List.mem_eraseDups.1 (Php.keys_render hmade ▸ List.mem_map_of_mem hfile)
    obtain ⟨s, hs, heq⟩ := List.mem_map.1 hmem
    obtain ⟨shelf, hshelf, name, -, rfl⟩ := Library.exists_shelf_of_mem_slots hs
    rw [← heq]
    exact ⟨⟨_, hs, rfl⟩, shelf.folder, Library.folder_mem_folders hshelf,
      parent_file hs (hplain _ hs)⟩
  intro q hq
  have hchange := (hgains d).change q
  generalize hold : d.tree.standing q = old at hchange hq
  generalize hnew : (outcome (write nonce ts l root withTests) d).2.tree.standing q = new
    at hchange hq
  cases hchange with
  | same => exact absurd rfl hq
  | file hp hplace =>
      obtain ⟨s, hs, rfl⟩ := hp
      rw [hplace, Slot.place_file hs (hplain s hs), List.append_assoc]
      exact .inl (List.prefix_append _ _)
  | directory hp hway =>
      obtain ⟨folder, hfolder, rfl⟩ := hp
      have hdots : ".." ∉ folder := fun h => (Library.folders_plain folder hfolder _ h).2.2 rfl
      exact (hway.of_join hdots).symm.imp_right fun hroot => ⟨hroot, rfl⟩

/-- The files of a library come to their own places below the output directory exactly if no name of
a class holds a slash, and then nothing else is written, however the writing ends. -/
theorem ownPaths_iff {description : Description} {settings : Settings} {l : Library}
    (hl : (Library.ofDescription description settings).1 = .ok l) (nonce : String)
    (ts : Php.Templates) (root : Path) (withTests : Bool) (d : Disk) :
    (∀ written d', Yields (write nonce ts l root withTests) d written d' →
      (OwnPaths d root (l.slots withTests) written ↔ l.HasPlainNames)) ∧
    (l.HasPlainNames → StaysBelow root d (outcome (write nonce ts l root withTests) d).2) :=
  ⟨fun _ _ h => ownPaths_iff_hasPlainNames hl h,
    fun h => staysBelow_write hl h nonce root withTests d⟩

/-- A document whose one operation is a method of the manager with a name. -/
def managerDocument (name : String) : Document := .ofValue <| .map 0 [
  (.str "openapi", .str "3.0.0"),
  (.str "paths", .map 1 [(.str "/pets", .map 2 [(.str "get", .map 3 [
    (.str "operationId", .str "listPets"), (.str "tags", .seq [.str ("Manager:" ++ name)]),
    (.str "responses", .map 4 [])])])])]

/-- A relative output directory. -/
def outputDirectory : Path := ⟨.here, ["out"]⟩

/-- What stands at a place after a library was written to an empty disk. -/
def standingAfter (withTests : Bool) (place : Place) (l : Library) : Option Standing :=
  match outcome (write "n" {} l outputDirectory withTests) {} with
  | (.ok _, d') => some (d'.tree.standing place)
  | (.error _, _) => none

theorem exists_yields_of_standingAfter {place : Place} {standing : Standing}
    (h : standingAfter withTests place l = some standing) :
    ∃ written d', Yields (write "n" {} l outputDirectory withTests) {} written d' ∧
      d'.tree.standing place = standing := by
  unfold standingAfter at h
  split at h
  case h_1 written d' heq => exact ⟨written, d', heq, Option.some.inj h⟩
  case h_2 => cases h

/-- The manager `Pets` and its test come to their own places. -/
theorem ownPaths_pets : ∃ d l written d',
    Description.ofDocument (managerDocument "Pets") "3.0.0" = .ok d ∧
      (Library.ofDescription d {}).1 = .ok l ∧
      Yields (write "n" {} l outputDirectory true) {} written d' ∧
      OwnPaths {} outputDirectory (l.slots true) written ∧ StaysBelow outputDirectory {} d' := by
  have hfirst : Library.ofFirstMethod (managerDocument "Pets") (fun l _ =>
      (l.client.name :: l.managers.map (·.name), l.resources.map (·.name),
        (standingAfter true ["out", "Tests", "Managers", "PetsTest.php"] l).isSome)) =
      some (.manager, "Pets", (["ApiClient", "Pets"], [], true)) := by
    decide +kernel
  obtain ⟨d, l, m, hd, hl, -, hvalues⟩ := Library.exists_of_ofFirstMethod hfirst
  simp only [Prod.mk.injEq, List.cons.injEq] at hvalues
  obtain ⟨⟨hclient, hmanagers⟩, hresources, hsome⟩ := hvalues
  have hplain : l.HasPlainNames := by
    refine ⟨by rw [hclient]; decide, fun c hc => ?_, fun c hc => ?_⟩
    · rw [List.mem_singleton.1 (hmanagers ▸ List.mem_map_of_mem hc : c.name ∈ ["Pets"])]
      decide
    · rw [List.map_eq_nil_iff.1 hresources] at hc
      cases hc
  obtain ⟨standing, hstanding⟩ := Option.isSome_iff_exists.1 hsome
  obtain ⟨written, d', hyields, -⟩ := exists_yields_of_standingAfter hstanding
  obtain ⟨hown, hbelow⟩ := ownPaths_iff hl "n" {} outputDirectory true {}
  refine ⟨d, l, written, d', hd, hl, hyields, (hown written d' hyields).2 hplain, ?_⟩
  have hdisk : (outcome (write "n" {} l outputDirectory true) {}).2 = d' :=
    congrArg Prod.snd hyields
  exact hdisk ▸ hbelow hplain

/-- The manager `../../Evil` is written beside the output directory. -/
theorem not_ownPaths_evil : ∃ d l written d',
    Description.ofDocument (managerDocument "../../Evil") "3.0.0" = .ok d ∧
      (Library.ofDescription d {}).1 = .ok l ∧
      Yields (write "n" {} l outputDirectory false) {} written d' ∧
      ¬ OwnPaths {} outputDirectory (l.slots false) written ∧
        ¬ StaysBelow outputDirectory {} d' := by
  have hfirst : Library.ofFirstMethod (managerDocument "../../Evil") (fun l _ =>
      (standingAfter false ["Evil.php"] l).map (· matches .file _)) =
      some (.manager, "../../Evil", some true) := by
    decide +kernel
  obtain ⟨d, l, m, hd, hl, hmethod, hvalue⟩ := Library.exists_of_ofFirstMethod hfirst
  obtain ⟨standing, hstanding, hfile⟩ := Option.map_eq_some_iff.1 hvalue
  obtain ⟨written, d', hyields, rfl⟩ := exists_yields_of_standingAfter hstanding
  refine ⟨d, l, written, d', hd, hl, hyields, fun hown => ?_, fun hbelow => ?_⟩
  · have hplain := (ownPaths_iff_hasPlainNames hl hyields).1 hown
    have hslash : '/' ∉ "../../Evil".toList := by
      generalize "../../Evil" = name at hmethod ⊢
      cases hmethod with
      | manager hc _ => exact hplain.managers _ hc
    exact absurd hslash (by decide)
  · cases hnew : d'.tree.standing ["Evil.php"] with
    | nothing => simp [hnew] at hfile
    | directory => simp [hnew] at hfile
    | file bytes =>
        have hchanged : d'.tree.standing ["Evil.php"] ≠ ({} : Disk).tree.standing ["Evil.php"] := by
          rw [hnew]
          exact Standing.noConfusion
        rcases hbelow ["Evil.php"] hchanged with hunder | ⟨-, hdirectory⟩
        · exact absurd hunder (by decide)
        · rw [hnew] at hdirectory
          cases hdirectory

end Output

end OpenApiClient
