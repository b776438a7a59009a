import PolyTerm.AtomicSaves
import PolyTerm.LibraryOpen

/-!
# The library's calls on a real disk

A save of the library changes its own file and nothing else. `atomic_write`
also makes the directories above the file, and uses a temporary file beside it,
whatever lies there. Here a process opens the library and calls it, with every
save carried out by the system calls of `AtomicWrite`: a call's tree and result
are those it has when just the saves that went through do (`callOnDisk`).
Off the temporary files and the directories of its saves the disk is the one
the library's own writes leave (`callOnDisk_shadow`, `openOnDisk_shadow`).
-/

namespace PolyTerm.Saved

open Writes

variable {β : Type} {fileOf : Path → FileId} {pid : Nat}

/-! ## One save -/

namespace AtomicWrite

/-- A save nobody interferes with, whose system calls come to these: what it
returns and leaves, if it has returned with the last of them. -/
def alone (fileOf : Path → FileId) (pid : Nat) :
    Disk β → AtomicWrite β → List Outcome → Option (Except String Unit × Disk β)
  | _, _, [] => none
  | disk, w, outcome :: outcomes =>
      match w.step fileOf pid disk outcome with
      | some (disk, .running w) => alone fileOf pid disk w outcomes
      | some (disk, .returned r) => if outcomes.isEmpty then some (r, disk) else none
      | none => none

variable {w : AtomicWrite β} {disk disk' : Disk β} {outcomes : List Outcome}
  {r : Except String Unit} {k : FileId}

/-- The temporary file has what was written so far. -/
def Stages (fileOf : Path → FileId) (pid : Nat) (disk : Disk β) (w : AtomicWrite β) : Prop :=
  ∀ done, w.stage = .writing done → disk (fileOf (w.path.temp pid)) = .file (w.bytes.take done)

/-- The file is there, or is no directory still to be made. -/
def Spares (fileOf : Path → FileId) (disk : Disk β) (k : FileId) (w : AtomicWrite β) : Prop :=
  disk k ≠ .missing ∨ ∀ rest, w.stage = .directories rest → ∀ dir ∈ rest, fileOf dir ≠ k

/-- One system call: the file of the save changes only when the save goes
through, other files off the temporary one do not. -/
theorem Call.alone {outcome : Outcome} {res : Disk β × Progress β}
    {cs : List (FileId × Entry (List β))} (h : w.Call fileOf pid disk outcome res cs)
    (hstages : w.Stages fileOf pid disk) (hk : fileOf (w.path.temp pid) ≠ k) :
    (∀ w', res.2 = .running w' → w'.path = w.path ∧ w'.bytes = w.bytes ∧
        w'.Stages fileOf pid res.1) ∧
      (w.Spares fileOf disk k →
        (fileOf w.path = k → res.2 ≠ .returned (.ok ())) → res.1 k = disk k ∧
          ∀ w', res.2 = .running w' → w'.Spares fileOf res.1 k) ∧
      (res.2 = .returned (.ok ()) → fileOf w.path = k → res.1 k = .file w.bytes) := by
  have hnone : ∀ {w' : AtomicWrite β} {disk' : Disk β}, (∀ done, w'.stage ≠ .writing done) →
      w'.Stages fileOf pid disk' := fun hw done hdone => absurd hdone (hw done)
  have hfree : ∀ {w' : AtomicWrite β} {disk' : Disk β}, (∀ rest, w'.stage ≠ .directories rest) →
      w'.Spares fileOf disk' k := fun hw => .inr fun rest hrest => absurd hrest (hw rest)
  have hother : ∀ {disk : Disk β} {k' : FileId} {v : Entry (List β)}, k' ≠ k →
      Function.update disk k' v k = disk k := fun hne => Function.update_of_ne hne.symm ..
  cases h with
  | @makeDirectory path bytes dir rest hmissing =>
      refine ⟨?_, fun hspares _ => ?_, nofun⟩
      · rintro w' ⟨⟩
        exact ⟨rfl, rfl, hnone nofun⟩
      · have hdir : fileOf dir ≠ k := by
          rcases hspares with hthere | hdirs
          · exact fun heq => hthere (heq ▸ hmissing)
          · exact hdirs _ rfl dir List.mem_cons_self
        refine ⟨hother hdir, ?_⟩
        rintro w' ⟨⟩
        refine hspares.imp (ne_of_eq_of_ne (hother hdir)) fun hdirs rest' hrest d hd => ?_
        obtain rfl := WriteStage.directories.inj hrest
        exact hdirs _ rfl d (List.mem_cons_of_mem _ hd)
  | @foundDirectory path bytes dir rest =>
      refine ⟨?_, fun hspares _ => ⟨rfl, ?_⟩, nofun⟩
      · rintro w' ⟨⟩
        exact ⟨rfl, rfl, hnone nofun⟩
      · rintro w' ⟨⟩
        refine hspares.imp id fun hdirs rest' hrest d hd => ?_
        obtain rfl := WriteStage.directories.inj hrest
        exact hdirs _ rfl d (List.mem_cons_of_mem _ hd)
  | noDirectory | noCreate | noWrite | notRemoved =>
      exact ⟨nofun, fun _ _ => ⟨rfl, nofun⟩, nofun⟩
  | removed => exact ⟨nofun, fun _ _ => ⟨hother hk, nofun⟩, nofun⟩
  | removeStale =>
      refine ⟨?_, fun _ _ => ⟨hother hk, ?_⟩, nofun⟩ <;> rintro w' ⟨⟩
      · exact ⟨rfl, rfl, hnone nofun⟩
      · exact hfree nofun
  | keepStale | noRename =>
      refine ⟨?_, fun _ _ => ⟨rfl, ?_⟩, nofun⟩ <;> rintro w' ⟨⟩
      · exact ⟨rfl, rfl, hnone nofun⟩
      · exact hfree nofun
  | create =>
      refine ⟨?_, fun _ _ => ⟨hother hk, ?_⟩, nofun⟩ <;> rintro w' ⟨⟩
      · refine ⟨rfl, rfl, ?_⟩
        rintro done ⟨⟩
        rw [List.take_zero]
        exact Function.update_self ..
      · exact hfree nofun
  | @write path bytes written done n hwritten =>
      refine ⟨?_, fun _ _ => ⟨hother hk, ?_⟩, nofun⟩ <;> rintro w' ⟨⟩
      · refine ⟨rfl, rfl, ?_⟩
        rintro more ⟨⟩
        obtain rfl := Entry.file.inj (hwritten.symm.trans (hstages done rfl))
        rw [← List.take_add]
        exact Function.update_self ..
      · exact hfree nofun
  | @rename path bytes done hdone =>
      refine ⟨nofun, fun _ hlost => ?_, ?_⟩
      · have hne : fileOf path ≠ k := fun heq => hlost heq rfl
        exact ⟨(hother hk).trans (hother hne), nofun⟩
      · rintro - rfl
        have hheld := hstages done rfl
        rw [hdone, List.take_length] at hheld
        exact (hother hk).trans ((Function.update_self ..).trans hheld)

theorem alone_cons {outcome : Outcome}
    (h : alone fileOf pid disk w (outcome :: outcomes) = some (r, disk')) :
    ∃ res cs, w.Call fileOf pid disk outcome res cs ∧
      ((∃ w', res.2 = .running w' ∧ alone fileOf pid res.1 w' outcomes = some (r, disk')) ∨
        (res.2 = .returned r ∧ res.1 = disk')) := by
  rw [alone] at h
  split at h
  · rename_i disk₁ w' hstep
    exact ⟨_, _, call_of_step (s := ⟨disk, fun _ => some ⟨w, []⟩⟩) rfl hstep, .inl ⟨w', rfl, h⟩⟩
  · rename_i disk₁ r' hstep
    obtain ⟨-, heq⟩ := Option.ite_none_right_eq_some.mp h
    obtain ⟨rfl, rfl⟩ := Prod.mk.inj (Option.some.inj heq)
    exact ⟨_, _, call_of_step (s := ⟨disk, fun _ => some ⟨w, []⟩⟩) rfl hstep, .inr ⟨rfl, rfl⟩⟩
  · cases h

/-- A save leaves what is neither its file, if it goes through, nor one it uses. -/
theorem alone_keeps (h : alone fileOf pid disk w outcomes = some (r, disk'))
    (hstages : w.Stages fileOf pid disk) (hk : fileOf (w.path.temp pid) ≠ k)
    (hspares : w.Spares fileOf disk k) (hr : fileOf w.path = k → r ≠ .ok ()) :
    disk' k = disk k := by
  induction outcomes generalizing disk w with
  | nil => cases h
  | cons outcome outcomes ih =>
      obtain ⟨res, cs, hcall, ⟨w', hrun, hrest⟩ | ⟨hreturned, rfl⟩⟩ := alone_cons h
      · obtain ⟨hgoes, hkeeps, -⟩ := hcall.alone hstages hk
        obtain ⟨hpath, -, hstages'⟩ := hgoes w' hrun
        obtain ⟨hsame, hspares'⟩ := hkeeps hspares fun _ hok => by rw [hrun] at hok; cases hok
        rw [ih hrest hstages' (hpath ▸ hk) (hspares' w' hrun) (hpath ▸ hr), hsame]
      · refine ((hcall.alone hstages hk).2.1 hspares fun heq hok => hr heq ?_).1
        exact Progress.returned.inj (hreturned.symm.trans hok)

/-- A save that goes through leaves its text. -/
theorem alone_saves (h : alone fileOf pid disk w outcomes = some (.ok (), disk'))
    (hstages : w.Stages fileOf pid disk) (hk : fileOf (w.path.temp pid) ≠ fileOf w.path) :
    disk' (fileOf w.path) = .file w.bytes := by
  induction outcomes generalizing disk w with
  | nil => cases h
  | cons outcome outcomes ih =>
      obtain ⟨res, cs, hcall, ⟨w', hrun, hrest⟩ | ⟨hreturned, rfl⟩⟩ := alone_cons h
      · obtain ⟨hpath, hbytes, hstages'⟩ := (hcall.alone hstages hk).1 w' hrun
        have hleft := ih hrest hstages' (by rw [hpath]; exact hk)
        rwa [hpath, hbytes] at hleft
      · exact (hcall.alone hstages hk).2.2 hreturned rfl

theorem stages_begin {path : Path} {bytes : List β} :
    (begin path bytes).Stages fileOf pid disk := by
  rintro done ⟨⟩

theorem spares_begin {path : Path} {bytes : List β}
    (h : disk k ≠ .missing ∨ ∀ dir ∈ path.directories, fileOf dir ≠ k) :
    (begin path bytes).Spares fileOf disk k := by
  refine h.imp id fun hdirs rest hrest => ?_
  obtain rfl := WriteStage.directories.inj hrest
  exact hdirs

end AtomicWrite

/-! ## Saves in a row -/

/-- A save as a write to the disk. -/
def saved (fileOf : Path → FileId) (save : Path × List β) : FileId × Entry (List β) :=
  (fileOf save.1, .file save.2)

/-- The saves one after the other, up to the first that fails: what becomes of
each, and the disk they leave. -/
def savesOnDisk (fileOf : Path → FileId) (pid : Nat) :
    Disk β → List (Path × List β) → List (List Outcome) → Option (List (Option StoreError) × Disk β)
  | disk, [], _ => some ([], disk)
  | _, _ :: _, [] => none
  | disk, (path, bytes) :: saves, outcomes :: rest =>
      match (AtomicWrite.begin path bytes).alone fileOf pid disk outcomes with
      | some (.ok _, disk) =>
          (savesOnDisk fileOf pid disk saves rest).map fun r => (none :: r.1, r.2)
      | some (.error e, disk) => some ([some (.io e)], disk)
      | none => none

/-- The file is no temporary file beside `paths`, and there or no directory
above one of them. -/
structure Aside (fileOf : Path → FileId) (pid : Nat) (disk : Disk β) (paths : List Path)
    (k : FileId) : Prop where
  temps : ∀ path ∈ paths, fileOf (path.temp pid) ≠ k
  directories : disk k ≠ .missing ∨ ∀ path ∈ paths, ∀ dir ∈ path.directories, fileOf dir ≠ k

theorem Aside.mono {disk : Disk β} {paths paths' : List Path} {k : FileId}
    (h : Aside fileOf pid disk paths' k) (hsub : paths ⊆ paths') : Aside fileOf pid disk paths k :=
  ⟨fun path hpath => h.temps path (hsub hpath),
    h.directories.imp id fun hdirs path hpath => hdirs path (hsub hpath)⟩

section Saves

variable {saves : List (Path × List β)} {disk disk' : Disk β} {outcomes : List (List Outcome)}
  {fates : List (Option StoreError)} {paths : List Path} {k : FileId}

theorem Aside.spares {path : Path} (h : Aside fileOf pid disk (path :: paths) k) (bytes : List β) :
    (AtomicWrite.begin path bytes).Spares fileOf disk k :=
  AtomicWrite.spares_begin (h.directories.imp id fun hdirs => hdirs _ List.mem_cons_self)

/-- A save that goes through is a whole write, beside what it uses. -/
theorem Aside.saved {path : Path} {bytes : List β} {first : List Outcome}
    (h : (AtomicWrite.begin path bytes).alone fileOf pid disk first = some (.ok (), disk'))
    (hk : Aside fileOf pid disk (path :: paths) k) {store : FileId → Entry (List β)}
    (hsame : disk k = store k) :
    disk' k = Function.update store (fileOf path) (.file bytes) k ∧
      Aside fileOf pid disk' paths k := by
  have htemp : fileOf (path.temp pid) ≠ k := hk.temps _ List.mem_cons_self
  have hrest : Aside fileOf pid disk paths k := hk.mono (List.subset_cons_self ..)
  by_cases hown : fileOf path = k
  · subst hown
    have hleft : disk' (fileOf path) = .file bytes :=
      AtomicWrite.alone_saves h AtomicWrite.stages_begin htemp
    rw [hleft, Function.update_self]
    exact ⟨rfl, hrest.temps, .inl (hleft ▸ nofun)⟩
  · have hkept : disk' k = disk k := AtomicWrite.alone_keeps h AtomicWrite.stages_begin htemp
      (hk.spares bytes) fun heq => absurd heq hown
    rw [Function.update_of_ne (Ne.symm hown), ← hsame]
    exact ⟨hkept, hrest.temps, hkept ▸ hrest.directories⟩

/-- On other files than their own the saves leave the disk that writes leave
which are all or nothing and fare the same. -/
theorem savesOnDisk_agrees (h : savesOnDisk fileOf pid disk saves outcomes = some (fates, disk'))
    (hk : Aside fileOf pid disk (saves.map Prod.fst) k) {store : FileId → Entry (List β)}
    (hsame : disk k = store k) (log : List (FileId × Entry (List β))) :
    disk' k =
      (Medium.writeAll (saves.map (Saved.saved fileOf)) ⟨store, fates, log⟩).2.store k := by
  induction saves generalizing disk outcomes fates store log with
  | nil =>
      obtain ⟨-, rfl⟩ := Prod.mk.inj (Option.some.inj h)
      exact hsame
  | cons save saves ih =>
      obtain ⟨path, bytes⟩ := save
      cases outcomes with
      | nil => cases h
      | cons first rest =>
          rw [savesOnDisk] at h
          split at h
          · rename_i disk₁ hfirst
            obtain ⟨⟨fates', disk₂⟩, hrest, heq⟩ := Option.map_eq_some_iff.mp h
            obtain ⟨rfl, rfl⟩ := Prod.mk.inj heq
            have hwrite : (⟨store, none :: fates', log⟩ : Medium _ _ StoreError).write
                (fileOf path) (.file bytes) = (.ok (), ⟨Function.update store (fileOf path)
                  (.file bytes), fates', log ++ [(fileOf path, .file bytes)]⟩) := rfl
            obtain ⟨hagrees, hk'⟩ := Aside.saved hfirst hk hsame
            simp only [List.map_cons, Saved.saved, Medium.writeAll, hwrite]
            exact ih hrest hk' hagrees _
          · rename_i e disk₁ hfirst
            obtain ⟨rfl, rfl⟩ := Prod.mk.inj (Option.some.inj h)
            have hwrite : (⟨store, [some (.io e)], log⟩ : Medium _ _ StoreError).write
                (fileOf path) (.file bytes) = (.error (.io e), ⟨store, [], log⟩) := rfl
            simp only [List.map_cons, Saved.saved, Medium.writeAll, hwrite]
            rw [← hsame]
            refine AtomicWrite.alone_keeps hfirst AtomicWrite.stages_begin
              (hk.temps _ List.mem_cons_self) (hk.spares bytes) fun _ hok => ?_
            cases hok
          · cases h

end Saves

/-! ## The saves of a call -/

variable {P : Platform (List β)}

namespace SessionLibrary

/-- The index and the included files. -/
def paths (lib : SessionLibrary) : List Path := lib.indexPath :: lib.tops.map (·.path)

/-- The path by which the library has a file. -/
def pathOf (P : Platform (List β)) (lib : SessionLibrary) (file : FileId) : Option Path :=
  lib.paths.find? fun path => P.fileOf path = file

theorem pathOf_of_mem {lib : SessionLibrary} {path : Path} (h : path ∈ lib.paths) :
    ∃ path', lib.pathOf P (P.fileOf path) = some path' ∧ P.fileOf path' = P.fileOf path := by
  have hfound : (lib.pathOf P (P.fileOf path)).isSome = true :=
    List.find?_isSome.mpr ⟨path, h, decide_eq_true rfl⟩
  obtain ⟨path', hpath'⟩ := Option.isSome_iff_exists.mp hfound
  exact ⟨path', hpath', by simpa using List.find?_some hpath'⟩

theorem mem_paths {lib : SessionLibrary} {t : TopFolder} (ht : t ∈ lib.tops) :
    t.path ∈ lib.paths := List.mem_cons_of_mem _ (List.mem_map_of_mem ht)

/-- Saving `paths` uses none of the library's files: none is a temporary file
beside them, or a directory above them. -/
def Unused (P : Platform (List β)) (pid : Nat) (lib : SessionLibrary) (paths : List Path) : Prop :=
  ∀ path ∈ paths, ∀ other ∈ path.temp pid :: path.directories, ∀ own ∈ lib.paths,
    P.fileOf other ≠ P.fileOf own

instance (pid : Nat) (lib : SessionLibrary) (paths : List Path) :
    Decidable (lib.Unused P pid paths) :=
  inferInstanceAs (Decidable (∀ path ∈ paths, ∀ other ∈ path.temp pid :: path.directories,
    ∀ own ∈ lib.paths, _))

theorem Unused.aside {lib : SessionLibrary} {paths : List Path} (h : lib.Unused P pid paths)
    {own : Path} (hown : own ∈ lib.paths) (disk : Disk β) :
    Aside P.fileOf pid disk paths (P.fileOf own) where
  temps path hpath := h path hpath _ List.mem_cons_self own hown
  directories := .inr fun path hpath dir hdir =>
    h path hpath dir (List.mem_cons_of_mem _ hdir) own hown

end SessionLibrary

namespace Store

open SessionLibrary

/-- The saves a call makes, in order, as long as none of them fails. -/
def saves (P : Platform (List β)) (s : Store (List β)) (op : LibraryOp) : List (Path × List β) :=
  let t := ((⟨s.lib, ⟨s.world.store, [], []⟩⟩ : Store (List β)).call P op).2
  t.world.log.filterMap fun write =>
    match write.2 with
    | .file bytes => (t.lib.pathOf P write.1).map fun path => (path, bytes)
    | _ => none

/-- The writes a call makes, whatever becomes of them: files of the tree it
leaves when none fails. -/
structure Makes (P : Platform (List β)) (s : Store (List β)) (op : LibraryOp)
    (writes : List (FileId × Entry (List β))) (tree : SessionLibrary) : Prop where
  world : ∀ w : World (List β), w.store = s.world.store →
    ((⟨s.lib, w⟩ : Store (List β)).call P op).2.world = (Medium.writeAll writes w).2
  leaves : ∀ w : World (List β), w.store = s.world.store → w.fates = [] →
    ((⟨s.lib, w⟩ : Store (List β)).call P op).2.lib = tree
  files : ∀ write ∈ writes, ∃ path ∈ tree.paths, ∃ bytes, write = (P.fileOf path, .file bytes)

theorem topWrites_files {lib : SessionLibrary} {idxs : List Nat}
    {write : FileId × Entry (List β)} (h : write ∈ lib.topWrites P idxs) :
    ∃ path ∈ lib.paths, ∃ bytes, write = (P.fileOf path, .file bytes) := by
  obtain ⟨i, -, t, ht, rfl⟩ := mem_topWrites.mp h
  exact ⟨t.path, mem_paths (List.mem_of_getElem? ht), _, rfl⟩

theorem indexWrite_files (lib : SessionLibrary) :
    ∃ path ∈ lib.paths, ∃ bytes, P.indexWrite lib = (P.fileOf path, .file bytes) :=
  ⟨lib.indexPath, List.mem_cons_self, _, rfl⟩

theorem makes_nothing {s : Store (List β)} {op : LibraryOp} {r : Except StoreError Unit}
    (h : ∀ w : World (List β), w.store = s.world.store →
      (⟨s.lib, w⟩ : Store (List β)).call P op = (r, ⟨s.lib, w⟩)) : Makes P s op [] s.lib :=
  ⟨fun w hw => by rw [h w hw]; rfl, fun w hw _ => by rw [h w hw], List.forall_mem_nil _⟩

/-- The index says where a new folder's file is, not what is in it. -/
theorem indexWrite_include (lib : SessionLibrary) (disk disk' : Disk β) (name : String)
    (path : Path) : P.indexWrite (lib.include (P.loadTop disk name path)) =
      P.indexWrite (lib.include (P.loadTop disk' name path)) := by
  simp [Platform.indexWrite, SessionLibrary.index, SessionLibrary.include, Platform.loadTop,
    TopFolder.entry]

theorem addNew_makes {s : Store (List β)} {name name' : String} {path path' : Path}
    (h : ∀ w : World (List β), w.store = s.world.store →
      (⟨s.lib, w⟩ : Store (List β)).addFile P name path = addNew P ⟨s.lib, w⟩ name' path') :
    ∃ writes tree, Makes P s (.addFile name path) writes tree := by
  by_cases hthere : (s.world.store (P.fileOf path')).exists = true
  · refine ⟨[P.indexWrite (s.lib.include (P.loadTop s.world.store name' path'))],
      s.lib.include (P.loadTop s.world.store name' path'), fun w hw => ?_, fun w hw _ => ?_, ?_⟩
    · rw [call, h w hw]
      simp only [addNew, hw, if_pos hthere]
      rfl
    · rw [call, h w hw]
      simp only [addNew, hw, if_pos hthere]
      rfl
    · rintro write hwrite
      obtain rfl := List.mem_singleton.mp hwrite
      exact indexWrite_files _
  · -- the file is created first, and loads as it was created
    have hworks : ∀ w w' : World (List β), w.store = s.world.store →
        Medium.writeAll [(P.fileOf path', .file (P.encodeSessions .empty))] w = (.ok (), w') →
        (⟨s.lib, w⟩ : Store (List β)).call P (.addFile name path) =
          saveIndex P ⟨s.lib.include (P.loadTop w'.store name' path'), w'⟩ := by
      intro w w' hw hres
      rw [call, h w hw]
      simp only [addNew, hw, if_neg hthere, save, hres]
    have hfails : ∀ (w w' : World (List β)) (e : StoreError), w.store = s.world.store →
        Medium.writeAll [(P.fileOf path', .file (P.encodeSessions .empty))] w = (.error e, w') →
        (⟨s.lib, w⟩ : Store (List β)).call P (.addFile name path) = (.error e, ⟨s.lib, w'⟩) := by
      intro w w' e hw hres
      rw [call, h w hw]
      simp only [addNew, hw, if_neg hthere, save, hres]
    generalize hdisk : Function.update s.world.store (P.fileOf path')
      (.file (P.encodeSessions .empty)) = disk
    refine ⟨[(P.fileOf path', .file (P.encodeSessions .empty)),
      P.indexWrite (s.lib.include (P.loadTop disk name' path'))],
      s.lib.include (P.loadTop disk name' path'), fun w hw => ?_, fun w hw hfates => ?_, ?_⟩
    · rcases Medium.write_cases w (P.fileOf path') (.file (P.encodeSessions .empty)) with
        ⟨n, hn, -⟩ | ⟨e, n, hn, -⟩
      · rw [hworks w n hw (by simp only [Medium.writeAll, hn])]
        simp only [Medium.writeAll, hn, saveIndex, save]
        rw [indexWrite_include s.lib n.store disk]
      · rw [hfails w n e hw (by simp only [Medium.writeAll, hn])]
        simp only [Medium.writeAll, hn]
    · obtain ⟨n, hn, hwrote, -⟩ := Medium.write_of_fates_nil hfates (P.fileOf path')
        (.file (P.encodeSessions .empty))
      have hstore : n.store = disk := by
        rw [hwrote.store, hw]
        exact hdisk
      rw [hworks w n hw (by simp only [Medium.writeAll, hn])]
      simp only [Medium.writeAll, saveIndex, save, hstore]
    · rintro write hwrite
      rcases List.mem_cons.mp hwrite with rfl | hwrite
      · exact ⟨_, mem_paths (List.mem_append_right _ List.mem_cons_self), _, rfl⟩
      · obtain rfl := List.mem_singleton.mp hwrite
        exact indexWrite_files _

theorem call_makes (P : Platform (List β)) (s : Store (List β)) (op : LibraryOp) :
    ∃ writes tree, Makes P s op writes tree := by
  cases hop : op.edits with
  | true =>
      have hedit := edit_cases P s.lib hop
      generalize hf : (fun w => (⟨s.lib, w⟩ : Store (List β)).call P op) = f at hedit
      have hcall : ∀ w, (⟨s.lib, w⟩ : Store (List β)).call P op = f w := congrFun hf
      cases hedit with
      | refused e => exact ⟨[], s.lib, makes_nothing fun w _ => hcall w⟩
      | nothing => exact ⟨[], s.lib, makes_nothing fun w _ => hcall w⟩
      | @edit lib' idxs h =>
          exact ⟨lib'.topWrites P idxs, lib', fun w _ => by rw [hcall]; rfl,
            fun w _ _ => by rw [hcall]; rfl, fun write hwrite => topWrites_files hwrite⟩
  | false =>
      cases op with
      | addFile name path =>
          rcases addFile_cases P s name path with ⟨e, hcall⟩ | ⟨name', -, -, hcall⟩
          · exact ⟨[], s.lib, makes_nothing hcall⟩
          · exact addNew_makes hcall
      | removeTopFolder name =>
          rcases removeTopFolder_cases P s.lib name with ⟨-, hcall⟩ | ⟨pos, t, -, -, hcall⟩
          · exact ⟨[], s.lib, makes_nothing fun w _ => hcall w⟩
          · refine ⟨[P.indexWrite { s.lib with tops := s.lib.tops.eraseIdx pos }],
              { s.lib with tops := s.lib.tops.eraseIdx pos }, fun w _ => ?_, fun w _ _ => ?_, ?_⟩
            · rw [call, hcall w]
              rfl
            · rw [call, hcall w]
              rfl
            · rintro write hwrite
              obtain rfl := List.mem_singleton.mp hwrite
              exact indexWrite_files _
      | _ => cases hop

/-- The saves of a call are its writes. -/
theorem map_saves {s : Store (List β)} {op : LibraryOp} {writes : List (FileId × Entry (List β))}
    {tree : SessionLibrary} (h : Makes P s op writes tree) :
    (s.saves P op).map (saved P.fileOf) = writes := by
  have hlog : ((⟨s.lib, ⟨s.world.store, [], []⟩⟩ : Store (List β)).call P op).2.world.log =
      writes := by
    obtain ⟨n, hn, hwrote, -⟩ := Medium.writeAll_of_fates_nil
      (m := (⟨s.world.store, [], []⟩ : World (List β))) rfl writes
    rw [h.world ⟨s.world.store, [], []⟩ rfl, hn]
    exact hwrote.log
  have htree := h.leaves ⟨s.world.store, [], []⟩ rfl rfl
  simp only [saves, hlog, htree, List.map_filterMap]
  refine (List.filterMap_congr fun write hwrite => ?_).trans (List.filterMap_some ..)
  obtain ⟨path, hpath, bytes, rfl⟩ := h.files write hwrite
  obtain ⟨path', hpath', hsame⟩ := pathOf_of_mem (P := P) hpath
  simp only [hpath', Option.map_some, saved, hsame]

end Store

/-! ## A call on the disk -/

/-- A call, and what the system calls of each of its saves come to. -/
structure DiskCall where
  op : LibraryOp
  outcomes : List (List Outcome)
deriving DecidableEq, Repr

namespace Store

/-- What a call returns and leaves when every save is carried out by its system
calls. The tree and the result depend on which saves go through; what is on disk
is what the system calls leave there. -/
def callOnDisk (P : Platform (List β)) (pid : Nat) (s : Store (List β)) (c : DiskCall) :
    Option (Except StoreError Unit × Store (List β)) :=
  (savesOnDisk P.fileOf pid s.world.store (s.saves P c.op) c.outcomes).map fun (fates, disk) =>
    let done := (⟨s.lib, ⟨s.world.store, fates, s.world.log⟩⟩ : Store (List β)).call P c.op
    (done.1, ⟨done.2.lib, ⟨disk, done.2.world.fates, done.2.world.log⟩⟩)

def stepOnDisk (P : Platform (List β)) (pid : Nat) (s : Store (List β)) (c : DiskCall) :
    Option (Store (List β)) :=
  (s.callOnDisk P pid c).map Prod.snd

/-- A call has the tree, the result and the log of the call whose saves are all
or nothing, and the same on disk at files beside its saves. -/
structure Shadows (P : Platform (List β)) (pid : Nat) (s : Store (List β)) (op : LibraryOp)
    (r : Except StoreError Unit) (t : Store (List β)) (fates : List (Option StoreError))
    (w : World (List β)) : Prop where
  call : (⟨s.lib, ⟨s.world.store, fates, s.world.log⟩⟩ : Store (List β)).call P op =
    (r, ⟨t.lib, w⟩)
  log : t.world.log = w.log
  disk : ∀ k, Aside P.fileOf pid s.world.store ((s.saves P op).map Prod.fst) k →
    t.world.store k = w.store k

theorem callOnDisk_shadow {pid : Nat} {s t : Store (List β)} {c : DiskCall}
    {r : Except StoreError Unit} (h : s.callOnDisk P pid c = some (r, t)) :
    ∃ fates w, Shadows P pid s c.op r t fates w := by
  obtain ⟨⟨fates, disk⟩, hsaves, heq⟩ := Option.map_eq_some_iff.mp h
  obtain ⟨rfl, rfl⟩ := Prod.mk.inj heq
  refine ⟨fates, ((⟨s.lib, ⟨s.world.store, fates, s.world.log⟩⟩ : Store (List β)).call P
    c.op).2.world, rfl, rfl, fun k hk => ?_⟩
  obtain ⟨writes, tree, hmakes⟩ := call_makes P s c.op
  have hworld := hmakes.world ⟨s.world.store, fates, s.world.log⟩ rfl
  rw [← map_saves hmakes] at hworld
  rw [hworld]
  exact savesOnDisk_agrees hsaves hk rfl s.world.log

end Store

/-! ## Opening on the disk -/

namespace Platform

/-- Create the files that are missing. -/
def materialiseOnDisk (P : Platform (List β)) (pid : Nat) :
    List TopFolder → World (List β) → List (List Outcome) → Option (World (List β))
  | [], w, _ => some w
  | t :: ts, w, outcomes =>
      if t.writable && !(w.store (P.fileOf t.path)).exists then
        match outcomes with
        | [] => none
        | first :: rest =>
            match (AtomicWrite.begin t.path (P.encodeSessions t.data)).alone P.fileOf pid w.store
              first with
            | some (.ok _, disk) =>
                P.materialiseOnDisk pid ts ⟨disk, w.fates, w.log ++ [P.topWrite t]⟩ rest
            | _ => none
      else P.materialiseOnDisk pid ts w outcomes

/-- Open the library under `dir`, by system calls; `none` where that fails. -/
def openOnDisk (P : Platform (List β)) (pid : Nat) (dir : Path) (made : Except StoreError Unit)
    (w : World (List β)) (outcomes : List (List Outcome)) : Option (Store (List β)) :=
  match made, P.readIndex w.store (dir.file "library.json"), outcomes with
  | .ok _, .ok index, first :: rest =>
      let lib := migrateLegacyDefault (P.loadIndex w.store dir (seed dir index))
      match (AtomicWrite.begin lib.indexPath (P.encodeIndex lib.index)).alone P.fileOf pid w.store
        first with
      | some (.ok _, disk) =>
          (P.materialiseOnDisk pid lib.tops ⟨disk, w.fates, w.log ++ [P.indexWrite lib]⟩ rest).map
            fun w => ⟨lib, w⟩
      | _ => none
  | _, _, _ => none

/-- Files are created one save after the other; beside them the disk is the one
that whole writes leave. -/
theorem materialiseOnDisk_shadow {pid : Nat} {ts : List TopFolder} {w w' : World (List β)}
    {outcomes : List (List Outcome)} (h : P.materialiseOnDisk pid ts w outcomes = some w') :
    ∃ created, w'.log = w.log ++ created ∧
      (∀ write ∈ created, ∃ t ∈ ts, t.writable = true ∧ write = P.topWrite t) ∧
      ∀ k store, w.store k = store k → Aside P.fileOf pid w.store (ts.map (·.path)) k →
        w'.store k = apply store created k := by
  induction ts generalizing w outcomes with
  | nil =>
      obtain rfl := Option.some.inj h
      exact ⟨[], (List.append_nil _).symm, List.forall_mem_nil _, fun k store hsame _ => hsame⟩
  | cons t ts ih =>
      unfold materialiseOnDisk at h
      split at h
      · rename_i hcreate
        have hwritable : t.writable = true := (Bool.and_eq_true _ _ ▸ hcreate).1
        split at h
        · cases h
        rename_i first rest
        split at h
        · rename_i u disk hfirst
          obtain ⟨created, hlog, hall, hagrees⟩ := ih h
          refine ⟨P.topWrite t :: created, ?_, fun write hwrite => ?_, fun k store hsame hk => ?_⟩
          · rw [hlog, List.append_assoc]
            rfl
          · rcases List.mem_cons.mp hwrite with rfl | hwrite
            · exact ⟨t, List.mem_cons_self, hwritable, rfl⟩
            · obtain ⟨u, hu, hrest⟩ := hall write hwrite
              exact ⟨u, List.mem_cons_of_mem _ hu, hrest⟩
          · obtain ⟨hleft, hrest⟩ := Aside.saved hfirst hk hsame
            exact hagrees k _ hleft hrest
        · cases h
      · obtain ⟨created, hlog, hall, hagrees⟩ := ih h
        refine ⟨created, hlog, fun write hwrite => ?_, fun k store hsame hk =>
          hagrees k store hsame (hk.mono (List.subset_cons_self ..))⟩
        obtain ⟨u, hu, hrest⟩ := hall write hwrite
        exact ⟨u, List.mem_cons_of_mem _ hu, hrest⟩

/-- Opening loads the tree that an opening with whole writes loads, makes its
writes, and leaves the same on disk beside its saves, and at the index. -/
theorem openOnDisk_shadow {pid : Nat} {dir : Path} {made : Except StoreError Unit}
    {w : World (List β)} {outcomes : List (List Outcome)} {s : Store (List β)}
    (h : P.openOnDisk pid dir made w outcomes = some s) :
    ∃ index created world, P.Opens dir w ⟨s.lib, world⟩ index created ∧ s.world.log = world.log ∧
      ∀ k, Aside P.fileOf pid w.store s.lib.paths k ∨ (k = P.fileOf s.lib.indexPath ∧
          ∀ path ∈ s.lib.paths, P.fileOf (path.temp pid) ≠ k) →
        s.world.store k = world.store k := by
  unfold openOnDisk at h
  split at h
  · rename_i u index first rest hread
    generalize hlib : migrateLegacyDefault (P.loadIndex w.store dir (seed dir index)) = lib at h
    simp only at h
    split at h
    · rename_i u' disk hfirst
      obtain ⟨w', hcreated, rfl⟩ := Option.map_eq_some_iff.mp h
      obtain ⟨created, hlog, hall, hagrees⟩ := materialiseOnDisk_shadow hcreated
      refine ⟨index, created, ⟨apply w.store (P.indexWrite lib :: created), w.fates,
        w.log ++ (P.indexWrite lib :: created)⟩, ⟨hread, hlib.symm, ⟨rfl, rfl⟩, hall⟩, ?_,
        fun k hk => ?_⟩
      · exact hlog.trans (List.append_assoc ..)
      rcases hk with hk | ⟨rfl, htemps⟩
      · obtain ⟨hleft, hrest⟩ := Aside.saved hfirst hk rfl
        exact hagrees k _ hleft hrest
      · -- the index is there once it is saved
        have hleft : disk (P.fileOf lib.indexPath) = .file (P.encodeIndex lib.index) :=
          AtomicWrite.alone_saves hfirst AtomicWrite.stages_begin (htemps _ List.mem_cons_self)
        have hthere : disk (P.fileOf lib.indexPath) ≠ .missing := hleft ▸ nofun
        have hkept : disk (P.fileOf lib.indexPath) =
            Function.update w.store (P.fileOf lib.indexPath) (.file (P.encodeIndex lib.index))
              (P.fileOf lib.indexPath) := by rw [hleft, Function.update_self]
        exact hagrees _ _ hkept
          ⟨fun path hpath => htemps path (List.mem_cons_of_mem _ hpath), .inl hthere⟩
    · cases h
  · cases h

end Platform

/-! ## A platform to run on -/

/-- One directory, and a file is the one document it was printed from. The
decoders do what those of `Platform.plain` do. -/
def Platform.flat : Platform (List Document) where
  fileOf := Saved.flat
  toLowercase := String.toLower
  debug s := "\"" ++ s ++ "\""
  encodeSessions data := [.sessions data]
  decodeSessions
    | [.sessions data] => .ok data
    | [.index _] => .ok .empty
    | _ => .error "expected value at line 1 column 1"
  encodeIndex index := [.index index]
  decodeIndex
    | [.index index] => .ok index
    | [.sessions _] => .error "missing field entries"
    | _ => .error "expected value at line 1 column 1"
  decode_sessions _ := rfl
  decode_index _ := rfl

namespace Store

/-- The system calls of a save that goes through. -/
def goesThrough : List Outcome := [.ok, .ok, .failed "none", .ok, .wrote 1, .ok]

/-- A save that finds a file under its temporary file's name. -/
def goesOver : List Outcome := [.ok, .ok, .ok, .ok, .wrote 1, .ok]

end Store

end PolyTerm.Saved
