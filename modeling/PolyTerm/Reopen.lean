import PolyTerm.LockedFiles

/-!
# Reopening the library

After calls that all succeeded, what is on disk is what is in memory: the index
file holds the tree's index (`IndexHeld`), and every folder is as its file
loads. Opening the library again then loads the same tree, up to the two things
`open_in` does on its own account, which are to seed an empty index and to
rename a legacy folder (`reopen_same`). The saves must not use the library's own
files: a folder included as the index's temporary file loses its sessions when
the index is saved, and a file opened as missing can become a directory that
another one needs (`reopen_different`).
-/

namespace PolyTerm.Saved

open Runs Writes

variable {Text : Type}

namespace Store

open SessionLibrary Platform

variable (P : Platform Text)

/-! ## The tree -/

theorem call_tidy {s : Store Text} (h : Tidy s.lib) (op : LibraryOp) :
    Tidy (s.call P op).2.lib := by
  have hcases := call_cases P s op
  generalize s.call P op = res at hcases ⊢
  cases hcases with
  | refused op e hwrote => exact h
  | nothing op _ _ => exact h
  | edit hop hedit => exact h.revised hedit
  | added hname hfresh hwrote hpre =>
      exact h.include ⟨hfresh.trimmed, hfresh.name, hfresh.path⟩
  | @removed pos t ht => exact h.eraseIdx pos

/-! ## The index on disk -/

/-- The index file holds the tree's index. -/
def IndexHeld (s : Store Text) : Prop :=
  s.world.store (P.fileOf s.lib.indexPath) = .file (P.encodeIndex s.lib.index)

variable {P}

theorem indexHeld_saveIndex {s : Store Text} (hok : (s.saveIndex P).1 = .ok ()) :
    IndexHeld P (s.saveIndex P).2 := by
  have hwrote : Medium.Wrote s.world (s.saveIndex P).2.world [P.indexWrite s.lib] := save_ok hok
  have hself : apply s.world.store [P.indexWrite s.lib] (P.fileOf s.lib.indexPath) =
      .file (P.encodeIndex s.lib.index) := Function.update_self ..
  rw [IndexHeld, hwrote.store]
  exact hself

/-- A call that succeeds keeps the index on disk, unless it includes or writes
the index file as a session file. -/
theorem call_indexHeld {s : Store Text} (h : IndexHeld P s) {op : LibraryOp}
    (hok : (s.call P op).1 = .ok ()) (hapart : (s.call P op).2.lib.IndexApart P) :
    IndexHeld P (s.call P op).2 := by
  have hcases := call_cases P s op
  generalize s.call P op = res at hcases hok hapart ⊢
  cases hcases with
  | refused op e hwrote => cases hok
  | nothing op _ _ => exact h
  | @edit _ _ lib' idxs hedit =>
      have hwrote : Medium.Wrote s.world (saveTops P ⟨lib', s.world⟩ idxs).2.world
          (lib'.topWrites P idxs) := save_ok hok
      have hother : ∀ wr ∈ lib'.topWrites P idxs, wr.1 ≠ P.fileOf lib'.indexPath := by
        intro wr hwr
        obtain ⟨i, -, t, ht, rfl⟩ := mem_topWrites.mp hwr
        exact hapart t (List.mem_of_getElem? ht)
      have hindex : lib'.index = s.lib.index := congrArg LibraryIndex.mk hedit.entries
      have hkeep : s.world.store (P.fileOf lib'.indexPath) = .file (P.encodeIndex lib'.index) := by
        rw [hedit.indexPath, hindex]
        exact h
      rw [IndexHeld, hwrote.store]
      exact (apply_of_not_mem hother _).trans hkeep
  | added _ _ _ _ => exact indexHeld_saveIndex hok
  | removed _ => exact indexHeld_saveIndex hok

/-! ## The session files on disk -/

/-- Every folder is as its file loads. -/
def FilesHeld (P : Platform Text) (s : Store Text) : Prop :=
  ∀ t ∈ s.lib.tops, P.Loaded s.world.store t

theorem FilesHeld.lockedEmpty {s : Store Text} (h : FilesHeld P s) : LockedEmpty s.lib :=
  fun t ht => (h t ht).locked

theorem saveIndex_filesHeld {lib : SessionLibrary} {w : World Text} (hapart : lib.IndexApart P)
    (h : ∀ t ∈ lib.tops, P.Loaded w.store t) : FilesHeld P (saveIndex P ⟨lib, w⟩).2 :=
  fun t ht => (h t ht).congr (saveIndex_spared P ⟨lib, w⟩ hapart ht).store

/-- A file that was saved is writable, so it loads as what was saved. -/
theorem edit_filesHeld {s : Store Text} (h : FilesHeld P s) {lib' : SessionLibrary}
    {idxs : List Nat} (hedit : Revised s.lib lib' idxs) (hapart : lib'.FilesApart P)
    (hok : (saveTops P ⟨lib', s.world⟩ idxs).1 = .ok ()) :
    FilesHeld P (saveTops P ⟨lib', s.world⟩ idxs).2 := by
  have hwrote : Medium.Wrote s.world (saveTops P ⟨lib', s.world⟩ idxs).2.world
      (lib'.topWrites P idxs) := save_ok hok
  intro t' ht'
  obtain ⟨i, hi'⟩ := List.mem_iff_getElem?.mp ht'
  obtain ⟨t, hi, heq, hkeep⟩ := hedit.top hi'
  have ht : P.Loaded s.world.store t := h t (List.mem_of_getElem? hi)
  rw [hwrote.store]
  by_cases hmem : i ∈ idxs
  · have hwritable : t.writable = true := by
      by_contra hlocked
      exact (hedit.locked h.lockedEmpty hi (by simpa using hlocked)).2 hmem
    refine loaded_of_saved ?_ ?_ (apply_topWrites_mem hapart hedit.nodup hi' hmem _)
    · rw [heq]
      exact hwritable
    · rw [heq]
      exact ht.noError hwritable
  · have hsame : t' = t := by rw [heq, hkeep hmem]
    subst hsame
    exact ht.congr (apply_topWrites_not_mem hapart hi' hmem _)

theorem call_filesHeld {s : Store Text} (h : FilesHeld P s) {op : LibraryOp}
    (hok : (s.call P op).1 = .ok ()) (hapart : (s.call P op).2.lib.Apart P) :
    FilesHeld P (s.call P op).2 := by
  have hcases := call_cases P s op
  generalize s.call P op = res at hcases hok hapart ⊢
  cases hcases with
  | refused op e hwrote => cases hok
  | nothing op _ _ => exact h
  | edit hop hedit => exact edit_filesHeld h hedit hapart.1 hok
  | @added name name' path w pre hname hfresh hwrote hpre =>
      refine saveIndex_filesHeld hapart.2 fun t ht => ?_
      rcases List.mem_append.mp ht with hold | hnew
      · exact (h t hold).congr (created_spared P hapart.1 hwrote hpre hold).store
      · obtain rfl := List.mem_singleton.mp hnew
        rfl
  | removed _ =>
      exact saveIndex_filesHeld hapart.2 fun t ht => h t ((List.eraseIdx_sublist ..).subset ht)

/-- Opening creates missing files, with the contents they were loaded with. -/
theorem opened_filesHeld {dir : Path} {w : World Text} {s : Store Text} {index : LibraryIndex}
    {created : List (FileId × Entry Text)} (h : P.Opens dir w s index created)
    (hapart : s.lib.Apart P) : FilesHeld P s := by
  intro t ht
  have hloaded : P.Loaded w.store t := h.fits.loaded t ht
  rw [h.wrote.store]
  rcases apply_mem_or w.store (P.indexWrite s.lib :: created) (P.fileOf t.path) with
    hmem | ⟨hkeep, -⟩
  · rcases List.mem_cons.mp hmem with hindex | hmem
    · exact absurd (congrArg Prod.fst hindex) (hapart.2 t ht)
    · obtain ⟨u, hu, hwritable, hwr⟩ := h.created _ hmem
      obtain rfl : t = u := List.inj_on_of_nodup_map hapart.1 ht hu (congrArg Prod.fst hwr)
      exact loaded_of_saved hwritable (hloaded.noError hwritable) (congrArg Prod.snd hwr)
  · exact hloaded.congr hkeep

/-! ## Loading again -/

/-- The folder as its file loads. -/
def reload (P : Platform Text) (disk : FileId → Entry Text) (t : TopFolder) : TopFolder :=
  P.loadTop disk t.name t.path

/-- A tidy tree is read back from its index, folder by folder. -/
theorem foldl_loadEntry (disk : FileId → Entry Text) (ts : List TopFolder) (lib : SessionLibrary)
    (htrimmed : ∀ t ∈ ts, nonBlank t.name = some t.name)
    (hnames : (lib.tops.map (·.name) ++ ts.map (·.name)).Nodup)
    (hpaths : (lib.tops.map (·.path) ++ ts.map (·.path)).Nodup) :
    (ts.map TopFolder.entry).foldl (fun lib e => P.loadEntry disk lib e.name e.path) lib =
      { lib with tops := lib.tops ++ ts.map (reload P disk) } := by
  induction ts generalizing lib with
  | nil => simp
  | cons t ts ih =>
      have hfresh : ∀ u ∈ lib.tops, u.name ≠ t.name ∧ u.path ≠ t.path := fun u hu =>
        ⟨(List.nodup_append.mp hnames).2.2 _ (List.mem_map_of_mem hu) _ List.mem_cons_self,
          (List.nodup_append.mp hpaths).2.2 _ (List.mem_map_of_mem hu) _ List.mem_cons_self⟩
      have hload : P.loadEntry disk lib t.entry.name t.entry.path = lib.include (reload P disk t) :=
        loadEntry_fresh (htrimmed t List.mem_cons_self) hfresh
      rw [List.map_cons, List.foldl_cons, hload, ih (lib.include (reload P disk t))
        (fun u hu => htrimmed u (List.mem_cons_of_mem _ hu))]
      · simp [SessionLibrary.include]
      · simpa [SessionLibrary.include, reload, loadTop] using hnames
      · simpa [SessionLibrary.include, reload, loadTop] using hpaths

theorem loadIndex_index (disk : FileId → Entry Text) {lib : SessionLibrary} (h : Tidy lib)
    (hpath : lib.indexPath = lib.dir.file "library.json") :
    P.loadIndex disk lib.dir lib.index = { lib with tops := lib.tops.map (reload P disk) } := by
  have hfold := foldl_loadEntry (P := P) disk lib.tops ⟨lib.indexPath, lib.dir, []⟩ h.trimmed
    (by simpa using h.names) (by simpa using h.paths)
  rw [loadIndex, ← hpath]
  exact hfold

/-- What an opening finds that reads the tree's own index. -/
theorem opens_again {dir : Path} {w : World Text} {v : Store Text} {index : LibraryIndex}
    {created : List (FileId × Entry Text)} (h : P.Opens dir w v index created)
    {lib : SessionLibrary} (htidy : Tidy lib) (hpath : lib.indexPath = dir.file "library.json")
    (hdir : lib.dir = dir)
    (hindex : w.store (P.fileOf lib.indexPath) = .file (P.encodeIndex lib.index)) :
    v.lib = migrateLegacyDefault (if lib.tops = []
      then P.loadIndex w.store dir ⟨[⟨defaultTopFolder, dir.file "sessions.json"⟩]⟩
      else { lib with tops := lib.tops.map (reload P w.store) }) := by
  have hread := h.read
  rw [← hpath] at hread
  simp only [readIndex, hindex, Entry.exists, Entry.read, P.decode_index, Bool.not_true,
    Bool.false_eq_true, if_false, Except.ok.injEq] at hread
  subst hread
  rw [h.lib]
  by_cases htops : lib.tops = []
  · have hseed : seed dir lib.index = ⟨[⟨defaultTopFolder, dir.file "sessions.json"⟩]⟩ := by
      rw [seed, SessionLibrary.index, htops]
      rfl
    rw [if_pos htops, hseed]
  · have hseed : seed dir lib.index = lib.index := by
      rw [seed, if_neg]
      simpa [SessionLibrary.index] using htops
    subst hdir
    rw [if_neg htops, hseed, loadIndex_index w.store htidy hpath]

/-! ## Runs -/

/-- Memory and disk agree. -/
structure Synced (P : Platform Text) (dir : Path) (s : Store Text) : Prop where
  tidy : Tidy s.lib
  indexPath : s.lib.indexPath = dir.file "library.json"
  dir : s.lib.dir = dir
  index : IndexHeld P s
  files : FilesHeld P s

theorem Synced.opened {dir : Path} {w : World Text} {s : Store Text} {index : LibraryIndex}
    {created : List (FileId × Entry Text)} (h : P.Opens dir w s index created)
    (hapart : s.lib.Apart P) : Synced P dir s :=
  ⟨h.fits.tidy, h.fits.indexPath, h.fits.dir, h.index_text hapart.2,
    opened_filesHeld h hapart⟩

/-- What is on disk elsewhere does not matter. -/
theorem Synced.congr {dir : Path} {lib : SessionLibrary} {w w' : World Text}
    (h : Synced P dir ⟨lib, w⟩)
    (hsame : ∀ path ∈ lib.indexPath :: lib.tops.map (·.path),
      w'.store (P.fileOf path) = w.store (P.fileOf path)) : Synced P dir ⟨lib, w'⟩ :=
  ⟨h.tidy, h.indexPath, h.dir, (hsame _ List.mem_cons_self).trans h.index,
    fun t ht => (h.files t ht).congr
      (hsame _ (List.mem_cons_of_mem _ (List.mem_map_of_mem ht)))⟩

theorem Synced.call {dir : Path} {s : Store Text} (h : Synced P dir s) {op : LibraryOp}
    (hok : (s.call P op).1 = .ok ()) (hapart : (s.call P op).2.lib.Apart P) :
    Synced P dir (s.call P op).2 :=
  ⟨call_tidy P h.tidy op, (call_paths P s op).1.trans h.indexPath,
    (call_paths P s op).2.trans h.dir, call_indexHeld h.index hok hapart.2,
    call_filesHeld h.files hok hapart⟩

section Disk

variable {β : Type} {P : Platform (List β)} {pid : Nat}

/-- The call succeeds and leaves the files apart, and its saves use none of
them. -/
def Succeeds (P : Platform (List β)) (pid : Nat) (s : Store (List β)) (c : DiskCall) : Prop :=
  ∀ done ∈ s.callOnDisk P pid c, done.1 = .ok () ∧ done.2.lib.Apart P ∧
    done.2.lib.Unused P pid ((s.saves P c.op).map Prod.fst)

instance (s : Store (List β)) (c : DiskCall) : Decidable (Succeeds P pid s c) :=
  inferInstanceAs (Decidable (∀ done ∈ s.callOnDisk P pid c, _))

theorem Synced.stepOnDisk {dir : Path} {s t : Store (List β)} (h : Synced P dir s) {c : DiskCall}
    (hsucceeds : Succeeds P pid s c) (hstep : s.stepOnDisk P pid c = some t) :
    Synced P dir t := by
  obtain ⟨⟨r, t'⟩, hcall, rfl⟩ := Option.map_eq_some_iff.mp hstep
  obtain ⟨hok, hapart, hunused⟩ := hsucceeds _ hcall
  obtain ⟨fates, w, hshadow⟩ := callOnDisk_shadow hcall
  have hsynced : Synced P dir ⟨s.lib, ⟨s.world.store, fates, s.world.log⟩⟩ :=
    h.congr (w := s.world) fun _ _ => rfl
  have hdone : Synced P dir ⟨t'.lib, w⟩ := by
    have hcalled : ((⟨s.lib, ⟨s.world.store, fates, s.world.log⟩⟩ : Store (List β)).call P
        c.op).1 = .ok () → _ → Synced P dir _ := hsynced.call
    rw [hshadow.call] at hcalled
    exact hcalled hok hapart
  exact hdone.congr fun path hpath => hshadow.disk _ (hunused.aside hpath _)

end Disk

end Store

end PolyTerm.Saved
