import OpenApiClient.Proofs.Destinations
import OpenApiClient.Proofs.Passage

/-!
# Files that are written one after the other

Whatever stands on a disk, files that are written below a directory either come to stand at their
places, the later ones over the earlier ones, or one of them is hindered, and then the files before
it stand and nothing else has come to stand but directories.  Nothing is left of the names under
which the files were written first.
-/

namespace OpenApiClient

/-- Where a walk along a list fails, it has gone along the members before the one at fault. -/
theorem Walk.exists_of_outcome_mapM {σ α β : Type} {f : α → ExceptT Fault (StateM σ) β} {l : List α}
    {s s' : σ} {fault : Fault} (h : outcome (l.mapM f) s = (.error fault, s')) :
    ∃ before : List α, ∃ a after bs s₁,
      l = before ++ a :: after ∧ Yields (before.mapM f) s bs s₁ ∧
      outcome (f a) s₁ = (.error fault, s') := by
  induction l generalizing s with
  | nil => cases h
  | cons a l ih =>
      rw [List.mapM_cons, outcome_bind] at h
      rcases ha : outcome (f a) s with ⟨e | b, s₁⟩ <;> rw [ha] at h
      · cases h
        exact ⟨[], a, l, [], s, rfl, rfl, ha⟩
      · dsimp only at h
        rw [outcome_bind] at h
        rcases hl : outcome (l.mapM f) s₁ with ⟨e | bs, s₂⟩ <;> rw [hl] at h
        · cases h
          obtain ⟨before, a', after, bs, s₃, rfl, hbefore, hfault⟩ := ih hl
          refine ⟨a :: before, a', after, b :: bs, s₃, rfl, ?_, hfault⟩
          exact yields_mapM.2 (.cons ha (yields_mapM.1 hbefore))
        · cases h

namespace Output

open Walk Filing Disk

variable {nonce : String} {root : Path} {d d' d₁ d₂ : Disk} {file : String × String}
  {written tried : List (String × String)} {q : Place} {bytes : List UInt8} {fault : Fault}

/-- Some files stand at their places, the last one where several have the same.  Elsewhere nothing
has changed, but for directories where nothing stood, on the way to the directories of the files
that were tried. -/
structure Delivers (root : Path) (written tried : List (String × String)) (d d' : Disk) : Prop where
  working : d'.working = d.working
  texts (before : List (String × String)) (file : String × String) (after : List (String × String))
    (h : written = before ++ file :: after)
    (hlast : ∀ later ∈ after, d.place (root / later.1) ≠ d.place (root / file.1)) :
    d'.tree.standing (d.place (root / file.1)) = .file file.2.toUTF8.toList
  others (q : Place) (h : ∀ file ∈ written, q ≠ d.place (root / file.1)) :
    d'.tree.standing q = d.tree.standing q ∨ d.tree.standing q = .nothing ∧
      d'.tree.standing q = .directory ∧ ∃ file ∈ tried, d.OnTheWay (root / file.1).parent q

theorem Delivers.nil (root : Path) (d : Disk) : Delivers root [] [] d d where
  working := rfl
  texts before file after h := by
    have hlength := congrArg List.length h
    simp at hlength
  others q _ := .inl rfl

/-- Directories are made for one file more. -/
theorem Delivers.gains (h : Delivers root written tried d d₁)
    (hgains : GainsDirectories ((root / file.1).parent = ·) d₁ d₂) :
    Delivers root written (tried ++ [file]) d d₂ where
  working := hgains.working.trans h.working
  texts before f after hwritten hlast :=
    hgains.standing_eq_file_iff.2 (h.texts before f after hwritten hlast)
  others q hq := by
    have htried : (∃ f ∈ tried, d.OnTheWay (root / f.1).parent q) →
        ∃ f ∈ tried ++ [file], d.OnTheWay (root / f.1).parent q := by
      rintro ⟨f, hf, hway⟩
      exact ⟨f, List.mem_append_left _ hf, hway⟩
    rcases h.others q hq with hsame | ⟨hbefore, hafter, hway⟩
    · rcases hgains.cases q with hsame' | ⟨hbefore', hafter', p, rfl, hway'⟩
      · exact .inl (hsame'.trans hsame)
      · refine .inr ⟨hsame.symm.trans hbefore', hafter', file, by simp, ?_⟩
        obtain ⟨names, hnames, hup⟩ := hway'
        exact ⟨names, hnames, place_eq_of_working h.working _ ▸ hup⟩
    · exact .inr ⟨hbefore, hgains.standing_directory hafter, htried hway⟩

/-- One file more is written. -/
theorem Delivers.puts (h : Delivers root written tried d d₁)
    (hputs : Puts (root / file.1) file.2 d₁ d₂) : Delivers root (written ++ [file]) tried d d₂ where
  working := hputs.working.trans h.working
  texts before f after hwritten hlast := by
    rw [hputs.standing, place_eq_of_working h.working]
    rcases List.eq_nil_or_concat after with rfl | ⟨after, last, rfl⟩
    · obtain ⟨-, hlast⟩ := List.append_inj' hwritten rfl
      obtain rfl : file = f := List.singleton_inj.1 hlast
      exact if_pos rfl
    · rw [List.concat_eq_append] at hwritten hlast
      rw [← List.cons_append, ← List.append_assoc] at hwritten
      obtain ⟨hbefore, heq⟩ := List.append_inj' hwritten rfl
      obtain rfl : file = last := List.singleton_inj.1 heq
      rw [if_neg (Ne.symm (hlast file (by simp)))]
      exact h.texts before f after hbefore fun later hlater =>
        hlast later (List.mem_append_left _ hlater)
  others q hq := by
    have hfile : q ≠ d₁.place (root / file.1) := by
      rw [place_eq_of_working h.working]
      exact hq file (List.mem_append_right _ List.mem_cons_self)
    rw [hputs.standing, if_neg hfile]
    exact h.others q fun f hf => hq f (List.mem_append_left _ hf)

/-- Of the members of a list that have a property, one is the last. -/
theorem exists_last_of_mem {α : Type} {p : α → Prop} {l : List α} {a : α} (ha : a ∈ l) (hp : p a) :
    ∃ before last after, l = before ++ last :: after ∧ p last ∧ ∀ later ∈ after, ¬ p later := by
  induction l using List.reverseRecOn with
  | nil => cases ha
  | append_singleton l b ih =>
      by_cases hb : p b
      · exact ⟨l, b, [], rfl, hb, fun _ h => absurd h List.not_mem_nil⟩
      · have hmem : a ∈ l := by
          rcases List.mem_append.1 ha with h | h
          · exact h
          · exact absurd (List.mem_singleton.1 h ▸ hp) hb
        obtain ⟨before, last, after, rfl, hlast, hafter⟩ := ih hmem
        refine ⟨before, last, after ++ [b], by simp, hlast, fun later hlater => ?_⟩
        rcases List.mem_append.1 hlater with h | h
        · exact hafter later h
        · exact List.mem_singleton.1 h ▸ hb

/-- A file that stands in the end stood there before, or is one of those that were written. -/
theorem Delivers.exists_of_file (h : Delivers root written tried d d')
    (hq : d'.tree.standing q = .file bytes) : d.tree.standing q = .file bytes ∨
      ∃ file ∈ written, q = d.place (root / file.1) ∧ bytes = file.2.toUTF8.toList := by
  by_cases hnamed : ∃ file ∈ written, d.place (root / file.1) = q
  · obtain ⟨file, hfile, hplace⟩ := hnamed
    obtain ⟨before, last, after, hwritten, hlast, hafter⟩ :=
      exists_last_of_mem (p := fun f => d.place (root / f.1) = q) hfile hplace
    have htext := h.texts before last after hwritten fun later hlater => hlast ▸ hafter later hlater
    rw [hlast, hq] at htext
    refine .inr ⟨last, ?_, hlast.symm, Standing.file.inj htext⟩
    rw [hwritten]
    exact List.mem_append_right _ List.mem_cons_self
  · rcases h.others q fun file hfile hplace => hnamed ⟨file, hfile, hplace.symm⟩
      with hsame | ⟨-, hdir, -⟩
    · exact .inl (hsame.symm.trans hq)
    · exact absurd (hq.symm.trans hdir) (Standing.file_ne_directory bytes)

/-- Either a file is written, or at most directories are made on the way to it. -/
theorem outcome_writeFile (nonce : String) (root : Path) (file : String × String) (d : Disk) :
    (∃ fault d', outcome (writeFile nonce root file) d = (.error fault, d') ∧
        GainsDirectories ((root / file.1).parent = ·) d d') ∨
      ∃ d₁ d', outcome (writeFile nonce root file) d = (.ok (root / file.1), d') ∧
        GainsDirectories ((root / file.1).parent = ·) d d₁ ∧ Puts (root / file.1) file.2 d₁ d' := by
  have hensured : Keeps (GainsDirectories ((root / file.1).parent = ·))
      (discard (ensureDirectory (root / file.1).parent)) :=
    compositional_keeps.map (keeps_ensureDirectory rfl) _
  have hgains := hensured d
  unfold writeFile
  dsimp only
  rw [outcome_bind]
  rcases ho : outcome (discard (ensureDirectory (root / file.1).parent)) d with ⟨fault | u, d₁⟩ <;>
    rw [ho] at hgains
  · exact .inl ⟨fault, d₁, rfl, hgains⟩
  · dsimp only
    rw [outcome_bind, outcome_rethrow]
    rcases outcome_write nonce (root / file.1) file.2 d₁ with ⟨⟨fault, hfault⟩, hmore⟩ |
      ⟨hok, d₂, hmore, hputs⟩
    · rcases hw : outcome (Filing.write nonce (root / file.1) file.2) d₁ with ⟨fault' | u', d₂⟩ <;>
        rw [hw] at hfault hmore
      · exact .inl ⟨_, d₂, rfl, trans_of (GainsDirectories _) hgains hmore⟩
      · cases hfault
    · rcases hw : outcome (Filing.write nonce (root / file.1) file.2) d₁ with ⟨fault | u', d₃⟩ <;>
        rw [hw] at hok hputs
      · cases hok
      · exact .inr ⟨d₂, d₃, rfl, trans_of (GainsDirectories _) hgains hmore, hputs⟩

/-- What hinders a file once directories were made for it has hindered it before. -/
theorem hindered_of_gains {p : Path} (hgains : GainsDirectories (p.parent = ·) d d₁)
    (h : Hindered nonce d₁ p) : Hindered nonce d p := by
  have hway {q : Place} : d₁.OnTheWay p.parent q ↔ d.OnTheWay p.parent q := OnTheWay.of_gains hgains
  have hplace := place_eq_of_working hgains.working
  have hmade {q : Place} (hq : d₁.tree.standing q ≠ d.tree.standing q) : d.OnTheWay p.parent q := by
    rcases hgains.cases q with hsame | ⟨-, -, p', rfl, hq'⟩
    · exact absurd hsame hq
    · exact hq'
  cases h with
  | file hq hfile => exact .file (hway.1 hq) (hgains.standing_eq_file_iff.1 hfile)
  | directory h =>
      rw [hplace, hway] at h
      refine .directory (h.elim (fun hdir => ?_) .inr)
      by_cases hsame : d₁.tree.standing (d.place p) = d.tree.standing (d.place p)
      · exact .inl (hsame ▸ hdir)
      · exact .inr (hmade hsame)
  | name hn hunfit => exact .name hn hunfit
  | taken h =>
      rw [draftPlace, hplace, hway] at h
      refine .taken (h.elim (fun hother => ?_) .inr)
      by_cases hsame :
          d₁.tree.standing (draftPlace nonce d p) = d.tree.standing (draftPlace nonce d p)
      · exact .inl (hsame ▸ hother)
      · exact .inr (hmade hsame)
  | astray h => exact .astray fun hd => h (hd.of_gains hgains)

/-- Where directories can be made, a directory is there in the end. -/
theorem exists_ensureDirectory {p : Path} (h : d.Passable p) :
    ∃ made d₁, outcome (ensureDirectory p) d = (.ok made, d₁) := by
  have hlook : ∃ b, d.isDirectory p = .ok b := by
    unfold Disk.isDirectory look Disk.find
    rcases h.locate with hplace | hmissing
    · rw [hplace]
      dsimp only [bind, Except.bind]
      cases d.tree.get? (d.place p) <;> exact ⟨_, rfl⟩
    · rw [hmissing]
      exact ⟨_, rfl⟩
  obtain ⟨b, hb⟩ := hlook
  unfold ensureDirectory
  rw [outcome_bind, outcome_isDirectory, hb]
  cases b with
  | true => exact ⟨false, d, rfl⟩
  | false =>
      obtain ⟨d₁, hmade, -⟩ := exists_makeDirectories h
      refine ⟨true, { d₁ with
        log := d₁.log.push ⟨.debug, "render.writer", "Created directory " ++ p.text⟩ }, ?_⟩
      dsimp only
      rw [if_neg Bool.false_ne_true, outcome_bind, outcome_rethrow, hmade]
      rfl

/-- A file is written unless something hinders it. -/
theorem hindered_of_outcome_writeFile
    (h : outcome (writeFile nonce root file) d = (.error fault, d')) :
    Hindered nonce d (root / file.1) := by
  by_contra hfree
  obtain ⟨made, d₁, hensured⟩ := exists_ensureDirectory (passable_parent_of_not_hindered hfree)
  have hgains : GainsDirectories ((root / file.1).parent = ·) d d₁ :=
    (keeps_ensureDirectory rfl).of_yields hensured
  obtain ⟨d₂, hwritten⟩ :=
    exists_write_of_not_hindered (fun hd => hfree (hindered_of_gains hgains hd)) file.2
  have hdiscarded : outcome (discard (ensureDirectory (root / file.1).parent)) d = (.ok (), d₁) :=
    yields_map.2 ⟨made, hensured, rfl⟩
  unfold writeFile at h
  dsimp only at h
  rw [outcome_bind, hdiscarded] at h
  dsimp only at h
  rw [outcome_bind, outcome_rethrow, hwritten] at h
  cases h

/-- Files that were all written have been delivered. -/
theorem delivers_of_yields {files : List (String × String)} {paths : List Path}
    (h : Yields (writeFiles nonce root files) d paths d') :
    paths = files.map (fun f => root / f.1) ∧ Delivers root files files d d' := by
  have hsteps := yields_mapM.1 h
  refine ⟨?_, ?_⟩
  · have hall : List.Forall₂ (fun f p => p = root / f.1) files paths :=
      hsteps.forall₂ (P := fun _ f p => p = root / f.1)
        (fun _ _ _ _ hstep => eq_of_yields_writeFile hstep) fun _ _ _ _ _ _ _ hp => hp
    have hmap : paths.map id = files.map fun f => root / f.1 :=
      map_eq_of_forall₂ (fun _ _ hp => hp) hall
    rwa [List.map_id] at hmap
  · refine hsteps.invariant (I := fun done s => Delivers root done done d s) (.nil root d) ?_
    intro done f s p s' _ hdone hstep
    rcases outcome_writeFile nonce root f s
      with ⟨fault, s₁, hfault, -⟩ | ⟨s₁, s₂, hok, hgains, hputs⟩
    · cases hfault.symm.trans hstep
    · cases hok.symm.trans hstep
      exact (hdone.gains hgains).puts hputs

/-- How the writing of files ends. -/
inductive Delivery (nonce : String) (root : Path) (files : List (String × String)) (d : Disk) :
    Except Fault (List Path) × Disk → Prop
  /-- Every file has been written. -/
  | complete {d' : Disk} (h : Delivers root files files d d') :
      Delivery nonce root files d (.ok (files.map fun f => root / f.1), d')
  /-- The files before one have been written, and this one is hindered: nothing but directories has
  been made for it, and nothing at all for the files after it. -/
  | stopped {before after : List (String × String)} {file : String × String} {fault : Fault}
      {d₁ d' : Disk}
      (hfiles : files = before ++ file :: after)
      (hbefore : Yields (writeFiles nonce root before) d (before.map fun f => root / f.1) d₁)
      (hfile : outcome (writeFile nonce root file) d₁ = (.error fault, d'))
      (hhindered : Hindered nonce d₁ (root / file.1))
      (h : Delivers root before (before ++ [file]) d d') :
      Delivery nonce root files d (.error fault, d')

/-- Files are written one after the other, up to the first one that is hindered, and no other file
has come to stand anywhere in the end. -/
theorem delivery_writeFiles (nonce : String) (root : Path) (files : List (String × String))
    (d : Disk) :
    Delivery nonce root files d (outcome (writeFiles nonce root files) d) ∧
      ∀ q bytes, (outcome (writeFiles nonce root files) d).2.tree.standing q = .file bytes →
        d.tree.standing q = .file bytes ∨
          ∃ file ∈ files, q = d.place (root / file.1) ∧ bytes = file.2.toUTF8.toList := by
  rcases ho : outcome (writeFiles nonce root files) d with ⟨fault | paths, d'⟩
  · obtain ⟨before, file, after, paths, d₁, rfl, hbefore, hfile⟩ := exists_of_outcome_mapM ho
    obtain ⟨rfl, hdelivers⟩ := delivers_of_yields hbefore
    have hgains : GainsDirectories ((root / file.1).parent = ·) d₁ d' := by
      rcases outcome_writeFile nonce root file d₁ with ⟨_, _, hfault, hgains⟩ | ⟨_, _, hok, -, -⟩
      · cases hfault.symm.trans hfile
        exact hgains
      · cases hok.symm.trans hfile
    have hend := hdelivers.gains hgains
    refine ⟨.stopped rfl hbefore hfile (hindered_of_outcome_writeFile hfile) hend,
      fun q bytes hq => ?_⟩
    refine (hend.exists_of_file hq).imp_right ?_
    rintro ⟨f, hf, hplace⟩
    exact ⟨f, List.mem_append_left _ hf, hplace⟩
  · obtain ⟨rfl, hdelivers⟩ := delivers_of_yields ho
    exact ⟨.complete hdelivers, fun q bytes hq => hdelivers.exists_of_file hq⟩

end Output

end OpenApiClient
