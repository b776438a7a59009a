import PolyTerm.LibraryCalls

/-!
# The index file

The index lies in the library's own directory, under a name that a user can
give to a session file too. Nothing compares the two: `add_file` of the index
takes the index's text for a session file without sessions, and the first save
of that folder then replaces the index (`index_overwritten`). Nor is a path
compared with the temporary file that saving the index uses, so that a session
file of that name is gone with the next save of the index. The file settles that
these are the only ways to damage either (`index_kept_iff`).
-/

namespace PolyTerm.Saved

open Runs Writes

variable {Text : Type}

namespace SessionLibrary

variable {P : Platform Text} {lib : SessionLibrary}

theorem Revised.indexApart {lib' : SessionLibrary} {idxs : List Nat} (h : Revised lib lib' idxs)
    (hapart : lib.IndexApart P) : lib'.IndexApart P := by
  intro t' ht'
  obtain ⟨i, hi⟩ := List.mem_iff_getElem?.mp ht'
  obtain ⟨t, ht, heq, -⟩ := h.top hi
  rw [heq, h.indexPath]
  exact hapart t (List.mem_of_getElem? ht)

/-- No included path leads to the index or to its temporary file. -/
def IndexAlone (P : Platform Text) (pid : Nat) (lib : SessionLibrary) : Prop :=
  ∀ path ∈ lib.tops.map (·.path),
    P.fileOf path ≠ P.fileOf lib.indexPath ∧ P.fileOf path ≠ P.fileOf (lib.indexPath.temp pid)

instance (pid : Nat) : Decidable (lib.IndexAlone P pid) :=
  inferInstanceAs (Decidable (∀ path ∈ lib.tops.map (·.path),
    P.fileOf path ≠ P.fileOf lib.indexPath ∧ P.fileOf path ≠ P.fileOf (lib.indexPath.temp pid)))

theorem IndexAlone.apart {pid : Nat} (h : lib.IndexAlone P pid) : lib.IndexApart P :=
  fun _ ht => (h _ (List.mem_map_of_mem ht)).1

end SessionLibrary

/-! ## What is written where -/

namespace Platform

open SessionLibrary

variable (P : Platform Text)

/-- The index goes to its own file, and sessions go elsewhere. -/
def Proper (index : FileId) (wr : FileId × Entry Text) : Prop :=
  (wr.1 = index ∧ ∃ entries, wr.2 = .file (P.encodeIndex entries)) ∨
    (wr.1 ≠ index ∧ ∃ data, wr.2 = .file (P.encodeSessions data))

variable {P}

theorem proper_indexWrite (lib : SessionLibrary) :
    P.Proper (P.fileOf lib.indexPath) (P.indexWrite lib) := .inl ⟨rfl, _, rfl⟩

theorem proper_sessions {index file : FileId} (h : file ≠ index) (data : SessionFileData) :
    P.Proper index (file, .file (P.encodeSessions data)) := .inr ⟨h, _, rfl⟩

/-- After proper writes an index file that could be read still can be. -/
theorem readable_index {disk : FileId → Entry Text} {index : FileId}
    {done : List (FileId × Entry Text)} (hdone : ∀ wr ∈ done, P.Proper index wr)
    (h : ∃ entries, disk index = .file (P.encodeIndex entries)) :
    ∃ entries, apply disk done index = .file (P.encodeIndex entries) := by
  rcases apply_mem_or disk done index with hmem | ⟨hkeep, -⟩
  · rcases hdone _ hmem with ⟨-, hindex⟩ | ⟨hother, -⟩
    · exact hindex
    · exact absurd rfl hother
  · rw [hkeep]
    exact h

end Platform

namespace Store

open SessionLibrary

variable (P : Platform Text)

/-- What a call keeps after which the index is no session file. -/
structure Careful (s t : Store Text) : Prop where
  indexPath : t.lib.indexPath = s.lib.indexPath
  dir : t.lib.dir = s.lib.dir
  apart : t.lib.IndexApart P
  writes : ∃ done, Medium.Wrote s.world t.world done ∧
    ∀ wr ∈ done, P.Proper (P.fileOf s.lib.indexPath) wr

theorem careful_saveIndex {s : Store Text} {lib : SessionLibrary} {w : World Text}
    {pre : List (FileId × Entry Text)} (hpath : lib.indexPath = s.lib.indexPath)
    (hdir : lib.dir = s.lib.dir) (hapart : lib.IndexApart P) (hwrote : Medium.Wrote s.world w pre)
    (hpre : ∀ wr ∈ pre, P.Proper (P.fileOf s.lib.indexPath) wr) :
    Careful P s (saveIndex P ⟨lib, w⟩).2 := by
  obtain ⟨done, hdone, hsaved⟩ := save_wrote ⟨lib, w⟩ [P.indexWrite lib]
  refine ⟨hpath, hdir, hapart, pre ++ done, hwrote.trans hsaved, fun wr hwr => ?_⟩
  rcases List.mem_append.mp hwr with hwr | hwr
  · exact hpre wr hwr
  · obtain rfl := List.mem_singleton.mp (hdone.subset hwr)
    exact hpath ▸ Platform.proper_indexWrite lib

theorem call_careful {s : Store Text} (hapart : s.lib.IndexApart P) (op : LibraryOp)
    (hafter : (s.call P op).2.lib.IndexApart P) : Careful P s (s.call P op).2 := by
  have hcases := call_cases P s op
  generalize s.call P op = res at hcases hafter ⊢
  cases hcases with
  | refused op e hwrote =>
      exact ⟨rfl, rfl, hapart, [], hwrote, List.forall_mem_nil _⟩
  | nothing op _ _ =>
      exact ⟨rfl, rfl, hapart, [], .refl _, List.forall_mem_nil _⟩
  | @edit _ _ lib' idxs hedit =>
      have hapart' := hedit.indexApart hapart
      obtain ⟨done, hpre, hwrote⟩ := save_wrote { s with lib := lib' } (lib'.topWrites P idxs)
      refine ⟨hedit.indexPath, hedit.dir, hapart', done, hwrote, fun wr hwr => ?_⟩
      obtain ⟨i, -, t, ht, rfl⟩ := mem_topWrites.mp (hpre.subset hwr)
      have hother := hapart' t (List.mem_of_getElem? ht)
      rw [hedit.indexPath] at hother
      exact Platform.proper_sessions hother _
  | @added name name' path w pre hname hfresh hwrote hpre =>
      have hfile : P.fileOf (s.resolveFilePath P path) ≠ P.fileOf s.lib.indexPath :=
        hafter _ (List.mem_append_right _ List.mem_cons_self)
      have hproper : ∀ wr ∈ pre, P.Proper (P.fileOf s.lib.indexPath) wr := by
        intro wr hwr
        obtain rfl := mem_created hpre hwr
        exact Platform.proper_sessions hfile _
      exact careful_saveIndex P rfl rfl hafter hwrote hproper
  | removed _ => exact careful_saveIndex P rfl rfl hafter (.refl _) (List.forall_mem_nil _)

/-! ## What is included -/

/-- The name is one, and no folder has it. -/
def Free (lib : SessionLibrary) (name : String) : Bool :=
  (nonBlank name).any fun n => !lib.topFolderNames.contains n

/-- The name is free, the path is new, and the file is there or can be created. -/
def Adds (s : Store Text) (name : String) (path : Path) : Prop :=
  Free s.lib name ∧ s.resolveFilePath P path ∉ s.lib.tops.map (·.path) ∧
    ((s.world.store (P.fileOf (s.resolveFilePath P path))).exists = true ∨
      s.world.fates.head?.all Option.isNone)

/-- `add_file` includes its file, or leaves what is included. -/
theorem addFile_paths (s : Store Text) (name : String) (path : Path) :
    (Adds P s name path ∧ (s.addFile P name path).2.lib.tops.map (·.path) =
        s.lib.tops.map (·.path) ++ [s.resolveFilePath P path]) ∨
      (¬ Adds P s name path ∧
        (s.addFile P name path).2.lib.tops.map (·.path) = s.lib.tops.map (·.path)) := by
  unfold Adds
  generalize hfile : s.resolveFilePath P path = file
  cases hname : nonBlank name with
  | none => simp [addFile, Free, hname]
  | some name' =>
      by_cases hnames : (s.lib.tops.any fun t => t.name = name') = true
      · have hused : Free s.lib name = false := by
          simpa [Free, hname, topFolderNames] using hnames
        simp [addFile, hname, hnames, hused]
      by_cases hpaths : (s.lib.tops.any fun t => t.path = file) = true
      · have hold : file ∈ s.lib.tops.map (·.path) := by simpa using hpaths
        simp [addFile, hname, hnames, hfile, hpaths, hold]
      have hfree : Free s.lib name = true := by
        simpa [Free, hname, topFolderNames] using hnames
      have hnew : file ∉ s.lib.tops.map (·.path) := by simpa using hpaths
      have hself : nonBlank name' = some name' :=
        nonBlank_trimmed (nonBlank_eq_some hname).1 (nonBlank_eq_some hname).2
      have hfresh : ∀ t ∈ s.lib.tops, t.name ≠ name' ∧ t.path ≠ file := fun t ht =>
        ⟨fun h => hnames (by simpa using ⟨t, ht, h⟩), fun h => hpaths (by simpa using ⟨t, ht, h⟩)⟩
      have hload : ∀ disk, P.loadEntry disk s.lib name' file =
          s.lib.include (P.loadTop disk name' file) :=
        fun disk => Platform.loadEntry_fresh hself hfresh
      by_cases hthere : (s.world.store (P.fileOf file)).exists = true
      · refine .inl ⟨⟨hfree, hnew, .inl hthere⟩, ?_⟩
        simp [addFile, hname, hnames, hfile, hpaths, hthere, hload, saveIndex, save,
          SessionLibrary.include, Platform.loadTop]
      · -- the file is created, or the call ends with that
        rcases hfates : s.world.fates with _ | ⟨_ | e, fates⟩
        case cons.some =>
          simp [addFile, hname, hnames, hfile, hpaths, hthere, hfates, save, Medium.writeAll,
            Medium.write]
        all_goals
          refine .inl ⟨⟨hfree, hnew, .inr rfl⟩, ?_⟩
          simp [addFile, hname, hnames, hfile, hpaths, hthere, hload, hfates, saveIndex, save,
            Medium.writeAll, Medium.write, SessionLibrary.include, Platform.loadTop]

/-- No other call includes a file. -/
theorem call_paths_subset (s : Store Text) {op : LibraryOp}
    (hop : ∀ name path, op ≠ .addFile name path) :
    (s.call P op).2.lib.tops.map (·.path) ⊆ s.lib.tops.map (·.path) := by
  have hcases := call_cases P s op
  generalize s.call P op = res at hcases ⊢
  cases hcases with
  | refused op e hwrote => exact fun _ h => h
  | nothing op _ _ => exact fun _ h => h
  | edit _ hedit => exact fun _ h => hedit.map_eq (·.path) (fun _ _ => rfl) ▸ h
  | @added name name' path w pre hname hfresh hwrote hpre => exact absurd rfl (hop name path)
  | removed _ => exact fun _ h => ((List.eraseIdx_sublist ..).map _).subset h

/-! ## On the disk -/

section Disk

variable {β : Type} {P : Platform (List β)} {pid : Nat}

/-- The first save of the call, if it makes one, goes through. -/
def firstGoes (P : Platform (List β)) (pid : Nat) (s : Store (List β)) (c : DiskCall) : Bool :=
  (savesOnDisk P.fileOf pid s.world.store (s.saves P c.op) c.outcomes).any fun done =>
    done.1.head?.all Option.isNone

/-- The call includes the index, or its temporary file, as a session file: the
name is free, the path leads there, and the file is there or can be created. -/
def Collides (P : Platform (List β)) (pid : Nat) (s : Store (List β)) (c : DiskCall) : Prop :=
  match c.op with
  | .addFile name path =>
      Free s.lib name ∧
        (P.fileOf (s.resolveFilePath P path) = P.fileOf s.lib.indexPath ∨
          P.fileOf (s.resolveFilePath P path) = P.fileOf (s.lib.indexPath.temp pid)) ∧
        ((s.world.store (P.fileOf (s.resolveFilePath P path))).exists = true ∨
          s.firstGoes P pid c)
  | _ => False

instance (s : Store (List β)) (c : DiskCall) : Decidable (Collides P pid s c) := by
  unfold Collides
  split <;> infer_instance

/-- A call includes the index or its temporary file exactly if it collides. -/
theorem callOnDisk_alone {s t : Store (List β)} {c : DiskCall} {r : Except StoreError Unit}
    (h : s.callOnDisk P pid c = some (r, t)) (halone : s.lib.IndexAlone P pid) :
    t.lib.IndexAlone P pid ↔ ¬ Collides P pid s c := by
  obtain ⟨⟨fates, disk⟩, hsaves, heq⟩ := Option.map_eq_some_iff.mp h
  obtain ⟨rfl, rfl⟩ := Prod.mk.inj heq
  have hfirst : s.firstGoes P pid c = fates.head?.all Option.isNone := by
    rw [firstGoes, hsaves, Option.any_some]
  change SessionLibrary.IndexAlone P pid
    ((⟨s.lib, ⟨s.world.store, fates, s.world.log⟩⟩ : Store (List β)).call P c.op).2.lib ↔ _
  rw [IndexAlone, (call_paths P _ c.op).1]
  obtain ⟨op, outcomes⟩ := c
  cases op with
  | addFile name path =>
      change _ ↔ ¬(_ ∧ _ ∧ (_ ∨ _))
      rw [hfirst]
      rcases addFile_paths P (⟨s.lib, ⟨s.world.store, fates, s.world.log⟩⟩ : Store (List β))
        name path with ⟨⟨hfree, -, hmade⟩, hpaths⟩ | ⟨hnot, hpaths⟩
      · simp only [call, hpaths, List.forall_mem_append, List.forall_mem_singleton]
        constructor
        · rintro ⟨-, hindex, htemp⟩ ⟨-, hleads, -⟩
          exact hleads.elim hindex htemp
        · intro hop
          refine ⟨halone, fun hleads => hop ⟨hfree, .inl hleads, hmade⟩,
            fun hleads => hop ⟨hfree, .inr hleads, hmade⟩⟩
      · simp only [call, hpaths]
        refine iff_of_true halone ?_
        rintro ⟨hfree, hleads, hmade⟩
        have hold : s.resolveFilePath P path ∈ s.lib.tops.map (·.path) := by
          by_contra hnew
          exact hnot ⟨hfree, hnew, hmade⟩
        exact hleads.elim (halone _ hold).1 (halone _ hold).2
  | _ =>
      refine iff_of_true (fun path hpath => ?_) id
      have hold : path ∈ s.lib.tops.map (·.path) :=
        call_paths_subset P (⟨s.lib, ⟨s.world.store, fates, s.world.log⟩⟩ : Store (List β))
          (fun _ _ h => by cases h) hpath
      exact halone path hold

/-- The invariant: undamaged so far, with the index on disk. -/
structure Sound (P : Platform (List β)) (pid : Nat) (dir : Path) (w : World (List β))
    (s : Store (List β)) : Prop where
  indexPath : s.lib.indexPath = dir.file "library.json"
  dir : s.lib.dir = dir
  alone : s.lib.IndexAlone P pid
  writes : ∃ done, s.world.log = w.log ++ done ∧
    ∀ wr ∈ done, P.Proper (P.fileOf s.lib.indexPath) wr
  index : ∃ entries, s.world.store (P.fileOf s.lib.indexPath) = .file (P.encodeIndex entries)

/-- The index is on disk, and is no temporary file of anything. -/
theorem Sound.aside {dir : Path} {w : World (List β)} {s : Store (List β)}
    (h : Sound P pid dir w s)
    (htemp : ∀ path : Path, P.fileOf (path.temp pid) ≠ P.fileOf (dir.file "library.json"))
    (paths : List Path) :
    Aside P.fileOf pid s.world.store paths (P.fileOf s.lib.indexPath) := by
  obtain ⟨entries, hindex⟩ := h.index
  exact ⟨fun path _ => h.indexPath ▸ htemp path, .inl (hindex ▸ nofun)⟩

theorem Sound.callOnDisk {dir : Path} {w : World (List β)} {s t : Store (List β)}
    (h : Sound P pid dir w s)
    (htemp : ∀ path : Path, P.fileOf (path.temp pid) ≠ P.fileOf (dir.file "library.json"))
    {c : DiskCall} {r : Except StoreError Unit} (hcall : s.callOnDisk P pid c = some (r, t))
    (hop : ¬ Collides P pid s c) : Sound P pid dir w t := by
  have halone := (callOnDisk_alone hcall h.alone).mpr hop
  obtain ⟨fates, w', hshadow⟩ := callOnDisk_shadow hcall
  have hcareful := call_careful P (s := ⟨s.lib, ⟨s.world.store, fates, s.world.log⟩⟩) h.alone.apart
    c.op
  rw [hshadow.call] at hcareful
  replace hcareful := hcareful halone.apart
  obtain ⟨hpath, hdir, -, more, hmore, hproper⟩ := hcareful
  simp only at hpath hdir hproper
  obtain ⟨done, hlog, hdone⟩ := h.writes
  refine ⟨hpath.trans h.indexPath, hdir.trans h.dir, halone,
    ⟨done ++ more, ?_, fun wr hwr => ?_⟩, ?_⟩
  · rw [hshadow.log, hmore.log, hlog, List.append_assoc]
  · rw [hpath]
    rcases List.mem_append.mp hwr with hwr | hwr
    · exact hdone wr hwr
    · exact hproper wr hwr
  · rw [hpath, hshadow.disk _ (h.aside htemp _), hmore.store]
    exact Platform.readable_index hproper h.index

theorem Sound.opened {dir : Path} {made : Except StoreError Unit} {w : World (List β)}
    {outcomes : List (List Outcome)} {s : Store (List β)}
    (h : P.openOnDisk pid dir made w outcomes = some s) (halone : s.lib.IndexAlone P pid)
    (htemp : ∀ path : Path, P.fileOf (path.temp pid) ≠ P.fileOf (dir.file "library.json")) :
    Sound P pid dir w s := by
  obtain ⟨index, created, world, hopens, hlog, hdisk⟩ := Platform.openOnDisk_shadow h
  have hpath : s.lib.indexPath = dir.file "library.json" := hopens.fits.indexPath
  refine ⟨hpath, hopens.fits.dir, halone, ⟨_, hlog.trans hopens.wrote.log, fun wr hwr => ?_⟩,
    s.lib.index, ?_⟩
  · rcases List.mem_cons.mp hwr with rfl | hwr
    · exact Platform.proper_indexWrite s.lib
    · obtain ⟨t, ht, -, rfl⟩ := hopens.created wr hwr
      exact Platform.proper_sessions (halone.apart t ht) _
  · rw [hdisk _ (.inr ⟨rfl, fun path _ => hpath ▸ htemp path⟩)]
    exact hopens.index_text halone.apart

end Disk

end Store

end PolyTerm.Saved
