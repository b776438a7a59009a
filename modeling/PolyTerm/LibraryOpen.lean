import PolyTerm.LibraryDisk

/-!
# Opening a library

What `open_in` reads and writes. Every top-level folder of a library just
opened is as its file loads (`Loaded`), and the names and paths are tidy: the
names trimmed, both without duplicates. The calls keep the names and paths
tidy.
-/

namespace PolyTerm.Saved

open Writes

variable {Text : Type}

/-! ## Tidy names and paths -/

namespace SessionLibrary

structure Tidy (lib : SessionLibrary) : Prop where
  trimmed : ∀ t ∈ lib.tops, nonBlank t.name = some t.name
  names : (lib.tops.map (·.name)).Nodup
  paths : (lib.tops.map (·.path)).Nodup

theorem Tidy.empty (indexPath dir : Path) : Tidy ⟨indexPath, dir, []⟩ :=
  ⟨List.forall_mem_nil _, List.nodup_nil, List.nodup_nil⟩

theorem Tidy.include {lib : SessionLibrary} (h : Tidy lib) {t : TopFolder}
    (hfresh : Store.Fresh lib t.name t.path) : Tidy (lib.include t) where
  trimmed u hu := by
    rcases List.mem_append.mp hu with hu | hu
    · exact h.trimmed u hu
    · obtain rfl := List.mem_singleton.mp hu
      exact hfresh.trimmed
  names := by
    rw [SessionLibrary.include, List.map_append]
    refine List.nodup_append.mpr ⟨h.names, List.nodup_singleton _, ?_⟩
    intro name hname name' hname'
    obtain ⟨u, hu, rfl⟩ := List.mem_map.mp hname
    obtain rfl := List.mem_singleton.mp hname'
    exact hfresh.name u hu
  paths := by
    rw [SessionLibrary.include, List.map_append]
    refine List.nodup_append.mpr ⟨h.paths, List.nodup_singleton _, ?_⟩
    intro path hpath path' hpath'
    obtain ⟨u, hu, rfl⟩ := List.mem_map.mp hpath
    obtain rfl := List.mem_singleton.mp hpath'
    exact hfresh.path u hu

theorem Tidy.revised {lib lib' : SessionLibrary} {idxs : List Nat} (h : Tidy lib)
    (hedit : Revised lib lib' idxs) : Tidy lib' where
  trimmed t' ht' := by
    obtain ⟨i, hi⟩ := List.mem_iff_getElem?.mp ht'
    obtain ⟨t, ht, heq, -⟩ := hedit.top hi
    rw [heq]
    exact h.trimmed t (List.mem_of_getElem? ht)
  names := by
    rw [hedit.map_eq (·.name) fun _ _ => rfl]
    exact h.names
  paths := by
    rw [hedit.map_eq (·.path) fun _ _ => rfl]
    exact h.paths

theorem Tidy.eraseIdx {lib : SessionLibrary} (h : Tidy lib) (pos : Nat) :
    Tidy { lib with tops := lib.tops.eraseIdx pos } where
  trimmed t ht := h.trimmed t ((List.eraseIdx_sublist ..).subset ht)
  names := h.names.sublist ((List.eraseIdx_sublist ..).map _)
  paths := h.paths.sublist ((List.eraseIdx_sublist ..).map _)

/-- Names tell the folders apart, and so do paths. -/
theorem Tidy.eq_of_name {lib : SessionLibrary} (h : Tidy lib) {t u : TopFolder}
    (ht : t ∈ lib.tops) (hu : u ∈ lib.tops) (hname : t.name = u.name) : t = u :=
  List.inj_on_of_nodup_map h.names ht hu hname

theorem Tidy.eq_of_path {lib : SessionLibrary} (h : Tidy lib) {t u : TopFolder}
    (ht : t ∈ lib.tops) (hu : u ∈ lib.tops) (hpath : t.path = u.path) : t = u :=
  List.inj_on_of_nodup_map h.paths ht hu hpath

theorem Tidy.mem_eraseIdx {lib : SessionLibrary} (h : Tidy lib) {pos : Nat} {t u : TopFolder}
    (ht : lib.tops[pos]? = some t) :
    u ∈ lib.tops.eraseIdx pos ↔ u ∈ lib.tops ∧ u.name ≠ t.name := by
  rw [List.mem_eraseIdx_iff_getElem?]
  constructor
  · rintro ⟨i, hi, hu⟩
    refine ⟨List.mem_of_getElem? hu, fun hname => hi ?_⟩
    have hlt : i < (lib.tops.map (·.name)).length := by
      rw [List.length_map]
      exact (List.getElem?_eq_some_iff.mp hu).1
    refine (List.getElem?_inj hlt h.names).mp ?_
    simp [hu, ht, hname]
  · rintro ⟨hu, hname⟩
    obtain ⟨i, hi⟩ := List.mem_iff_getElem?.mp hu
    refine ⟨i, fun hpos => hname ?_, hi⟩
    subst hpos
    obtain rfl := Option.some.inj (hi.symm.trans ht)
    rfl

end SessionLibrary

/-! ## Loading -/

namespace Platform

open SessionLibrary

variable (P : Platform Text)

/-- The folder is as its file loads. -/
def Loaded (disk : FileId → Entry Text) (t : TopFolder) : Prop :=
  P.loadFile disk t.path = (t.data, t.writable, t.error)

/-- The file is there and cannot be read or parsed. -/
def Unloadable (disk : FileId → Entry Text) (path : Path) : Prop :=
  disk (P.fileOf path) ≠ .missing ∧
    ∀ text, (disk (P.fileOf path)).read = .ok text → ∃ e, P.decodeSessions text = .error e

variable {P}

theorem loadFile_unloadable {disk : FileId → Entry Text} {path : Path}
    (h : P.Unloadable disk path) : (P.loadFile disk path).2.1 = false := by
  obtain ⟨hthere, hparse⟩ := h
  unfold loadFile
  generalize disk (P.fileOf path) = entry at hthere hparse
  cases entry with
  | missing => exact absurd rfl hthere
  | directory => rfl
  | unreadable visible e => rfl
  | file text =>
      obtain ⟨e, he⟩ := hparse text rfl
      simp only [Entry.read, he]

theorem loadFile_writable {disk : FileId → Entry Text} {path : Path}
    (h : (P.loadFile disk path).2.1 = true) : (P.loadFile disk path).2.2 = none := by
  unfold loadFile at h ⊢
  split at h
  · split at h
    · rfl
    · cases h
  · rfl
  · cases h

theorem Loaded.congr {disk disk' : FileId → Entry Text} {t : TopFolder} (h : P.Loaded disk t)
    (hsame : disk' (P.fileOf t.path) = disk (P.fileOf t.path)) : P.Loaded disk' t :=
  (loadFile_congr hsame).trans h

theorem Loaded.locked {disk : FileId → Entry Text} {t : TopFolder} (h : P.Loaded disk t)
    (hlocked : t.writable = false) : t.data = .empty := by
  have hload : P.loadFile disk t.path = (t.data, t.writable, t.error) := h
  have hdata : (P.loadFile disk t.path).2.1 = false → (P.loadFile disk t.path).1 = .empty :=
    loadFile_locked
  rw [hload] at hdata
  exact hdata hlocked

theorem Loaded.noError {disk : FileId → Entry Text} {t : TopFolder} (h : P.Loaded disk t)
    (hwritable : t.writable = true) : t.error = none := by
  have hload : P.loadFile disk t.path = (t.data, t.writable, t.error) := h
  have herror : (P.loadFile disk t.path).2.1 = true → (P.loadFile disk t.path).2.2 = none :=
    loadFile_writable
  rw [hload] at herror
  exact herror hwritable

/-- A writable folder is as its file loads once it has been saved. -/
theorem loaded_of_saved {disk : FileId → Entry Text} {t : TopFolder} (hwritable : t.writable = true)
    (herror : t.error = none) (h : disk (P.fileOf t.path) = .file (P.encodeSessions t.data)) :
    P.Loaded disk t := by
  rw [Loaded, loadFile_saved h, hwritable, herror]

/-- Loading one entry drops it or includes it under a fresh name. -/
theorem loadEntry_cases (P : Platform Text) (disk : FileId → Entry Text) (lib : SessionLibrary)
    (name : String) (path : Path) :
    P.loadEntry disk lib name path = lib ∨
      ∃ name', nonBlank name = some name' ∧ Store.Fresh lib name' path ∧
        P.loadEntry disk lib name path = lib.include (P.loadTop disk name' path) := by
  cases hname : nonBlank name with
  | none =>
      left
      simp only [loadEntry, hname]
  | some name' =>
      by_cases hold : (lib.tops.any fun t => t.name = name' || t.path = path) = true
      · left
        simp only [loadEntry, hname, if_pos hold]
      · right
        have hfresh : ∀ t ∈ lib.tops, t.name ≠ name' ∧ t.path ≠ path := by simpa using hold
        have hself : nonBlank name' = some name' :=
          nonBlank_trimmed (nonBlank_eq_some hname).1 (nonBlank_eq_some hname).2
        exact ⟨name', rfl, ⟨hself, fun t ht => (hfresh t ht).1, fun t ht => (hfresh t ht).2⟩,
          loadEntry_fresh hname hfresh⟩

/-- What loading an index gives. -/
structure Fits (P : Platform Text) (disk : FileId → Entry Text) (dir : Path)
    (lib : SessionLibrary) : Prop where
  indexPath : lib.indexPath = dir.file "library.json"
  dir : lib.dir = dir
  tidy : Tidy lib
  loaded : ∀ t ∈ lib.tops, P.Loaded disk t

theorem Fits.include {disk : FileId → Entry Text} {dir : Path} {lib : SessionLibrary}
    (h : P.Fits disk dir lib) {name : String} {path : Path} (hfresh : Store.Fresh lib name path) :
    P.Fits disk dir (lib.include (P.loadTop disk name path)) where
  indexPath := h.indexPath
  dir := h.dir
  tidy := h.tidy.include hfresh
  loaded t ht := by
    rcases List.mem_append.mp ht with ht | ht
    · exact h.loaded t ht
    · obtain rfl := List.mem_singleton.mp ht
      rfl

theorem fits_loadIndex (P : Platform Text) (disk : FileId → Entry Text) (dir : Path)
    (index : LibraryIndex) : P.Fits disk dir (P.loadIndex disk dir index) := by
  have hfold : ∀ (entries : List IndexEntry) (lib : SessionLibrary), P.Fits disk dir lib →
      P.Fits disk dir (entries.foldl (fun lib e => P.loadEntry disk lib e.name e.path) lib) := by
    intro entries
    induction entries with
    | nil => exact fun lib h => h
    | cons e entries ih =>
        intro lib h
        have hone : P.Fits disk dir (P.loadEntry disk lib e.name e.path) := by
          rcases P.loadEntry_cases disk lib e.name e.path with heq | ⟨name', -, hfresh, heq⟩
          · rw [heq]
            exact h
          · rw [heq]
            exact h.include hfresh
        exact ih _ hone
  exact hfold _ _ ⟨rfl, rfl, .empty _ _, List.forall_mem_nil _⟩

/-! ## The legacy name -/

/-- A folder the migration would rename. -/
def Legacy (t : TopFolder) : Prop :=
  t.name = legacyDefaultTopFolder ∧ t.data = .empty

instance (t : TopFolder) : Decidable (Legacy t) := inferInstanceAs (Decidable (_ ∧ _))

theorem legacy_iff {t : TopFolder} :
    (t.name = legacyDefaultTopFolder && t.data.sessions.isEmpty && t.data.folders.isEmpty) = true ↔
      Legacy t := by
  obtain ⟨name, path, ⟨folders, sessions⟩, writable, error⟩ := t
  simp only [Legacy, SessionFileData.empty, Bool.and_eq_true, decide_eq_true_eq,
    List.isEmpty_iff, SessionFileData.mk.injEq, and_assoc, and_comm (a := sessions = [])]

/-- Nothing to rename, or the first legacy folder gets the new name. -/
theorem renameLegacy_cases (ts : List TopFolder) :
    (renameLegacy ts = ts ∧ ∀ t ∈ ts, ¬ Legacy t) ∨
      ∃ before t after, ts = before ++ t :: after ∧ Legacy t ∧ (∀ u ∈ before, ¬ Legacy u) ∧
        renameLegacy ts = before ++ { t with name := defaultTopFolder } :: after := by
  induction ts with
  | nil => exact .inl ⟨rfl, List.forall_mem_nil _⟩
  | cons t ts ih =>
      by_cases hlegacy : Legacy t
      · refine .inr ⟨[], t, ts, rfl, hlegacy, List.forall_mem_nil _, ?_⟩
        rw [renameLegacy, if_pos (legacy_iff.mpr hlegacy)]
        rfl
      · have hskip : renameLegacy (t :: ts) = t :: renameLegacy ts := by
          rw [renameLegacy, if_neg (mt legacy_iff.mp hlegacy)]
        rcases ih with ⟨hsame, hnone⟩ | ⟨before, u, after, rfl, hu, hbefore, heq⟩
        · refine .inl ⟨by rw [hskip, hsame], fun v hv => ?_⟩
          rcases List.mem_cons.mp hv with rfl | hv
          · exact hlegacy
          · exact hnone v hv
        · refine .inr ⟨t :: before, u, after, rfl, hu, fun v hv => ?_, by rw [hskip, heq]; rfl⟩
          rcases List.mem_cons.mp hv with rfl | hv
          · exact hlegacy
          · exact hbefore v hv

/-- The migration has nothing to do. -/
def Settled (lib : SessionLibrary) : Prop :=
  (∃ t ∈ lib.tops, t.name = defaultTopFolder) ∨ ∀ t ∈ lib.tops, ¬ Legacy t

instance (lib : SessionLibrary) : Decidable (Settled lib) :=
  inferInstanceAs (Decidable (_ ∨ _))

theorem migrate_cases (lib : SessionLibrary) :
    (migrateLegacyDefault lib = lib ∧ Settled lib) ∨
      ∃ before t after, lib.tops = before ++ t :: after ∧ Legacy t ∧
        (∀ u ∈ lib.tops, u.name ≠ defaultTopFolder) ∧
        migrateLegacyDefault lib =
          { lib with tops := before ++ { t with name := defaultTopFolder } :: after } := by
  by_cases hdefault : (lib.tops.any fun t => t.name = defaultTopFolder) = true
  · refine .inl ⟨by rw [migrateLegacyDefault, if_pos hdefault], .inl ?_⟩
    simpa using hdefault
  · have hnone : ∀ u ∈ lib.tops, u.name ≠ defaultTopFolder := by simpa using hdefault
    have hmigrate : migrateLegacyDefault lib = { lib with tops := renameLegacy lib.tops } := by
      rw [migrateLegacyDefault, if_neg hdefault]
    rcases renameLegacy_cases lib.tops with ⟨hsame, hlegacy⟩ | ⟨before, t, after, htops, ht, -, heq⟩
    · exact .inl ⟨by rw [hmigrate, hsame], .inr hlegacy⟩
    · exact .inr ⟨before, t, after, htops, ht, hnone, by rw [hmigrate, heq]⟩

theorem migrate_of_settled {lib : SessionLibrary} (h : Settled lib) :
    migrateLegacyDefault lib = lib := by
  rcases migrate_cases lib with ⟨hsame, -⟩ | ⟨before, t, after, htops, ht, hnone, -⟩
  · exact hsame
  · rcases h with ⟨u, hu, hname⟩ | hlegacy
    · exact absurd hname (hnone u hu)
    · exact absurd ht (hlegacy t (htops ▸ List.mem_append_right _ List.mem_cons_self))

/-- The migration changes a name and nothing else. -/
theorem Fits.migrate {disk : FileId → Entry Text} {dir : Path} {lib : SessionLibrary}
    (h : P.Fits disk dir lib) : P.Fits disk dir (migrateLegacyDefault lib) := by
  rcases migrate_cases lib with ⟨hsame, -⟩ | ⟨before, t, after, htops, -, hnone, heq⟩
  · rw [hsame]
    exact h
  · rw [heq]
    have hmem : ∀ u ∈ before ++ { t with name := defaultTopFolder } :: after,
        u ∈ lib.tops ∨ u = { t with name := defaultTopFolder } := by
      intro u hu
      rw [htops]
      simp only [List.mem_append, List.mem_cons] at hu ⊢
      tauto
    have ht : t ∈ lib.tops := htops ▸ List.mem_append_right _ List.mem_cons_self
    refine ⟨h.indexPath, h.dir, ⟨fun u hu => ?_, ?_, ?_⟩, fun u hu => ?_⟩
    · rcases hmem u hu with hu | rfl
      · exact h.tidy.trimmed u hu
      · have hdefault : nonBlank defaultTopFolder = some defaultTopFolder :=
          nonBlank_trimmed (by decide) (by decide)
        exact hdefault
    · have hnames := h.tidy.names
      rw [htops, List.map_append, List.map_cons] at hnames
      have hfresh : ∀ u ∈ before ++ after, u.name ≠ defaultTopFolder := by
        intro u hu
        refine hnone u (htops ▸ ?_)
        simp only [List.mem_append, List.mem_cons] at hu ⊢
        tauto
      simp only [List.map_append, List.map_cons]
      refine List.nodup_middle.mpr (List.nodup_cons.mpr
        ⟨fun hdup => ?_, (List.nodup_cons.mp (List.nodup_middle.mp hnames)).2⟩)
      rw [← List.map_append] at hdup
      obtain ⟨u, hu, hname⟩ := List.mem_map.mp hdup
      exact hfresh u hu hname
    · have hpaths := h.tidy.paths
      rw [htops] at hpaths
      simpa using hpaths
    · rcases hmem u hu with hu | rfl
      · exact h.loaded u hu
      · exact h.loaded t ht

/-- The tree of an index without entries. -/
theorem migrate_seeded (P : Platform Text) (disk : FileId → Entry Text) (dir : Path) :
    migrateLegacyDefault
        (P.loadIndex disk dir ⟨[⟨defaultTopFolder, dir.file "sessions.json"⟩]⟩) =
      ⟨dir.file "library.json", dir,
        [P.loadTop disk defaultTopFolder (dir.file "sessions.json")]⟩ := by
  have hdefault : nonBlank defaultTopFolder = some defaultTopFolder :=
    nonBlank_trimmed (by decide) (by decide)
  have hload : P.loadEntry disk ⟨dir.file "library.json", dir, []⟩ defaultTopFolder
      (dir.file "sessions.json") =
        ⟨dir.file "library.json", dir,
          [P.loadTop disk defaultTopFolder (dir.file "sessions.json")]⟩ :=
    loadEntry_fresh hdefault (List.forall_mem_nil _)
  rw [loadIndex, List.foldl_cons, List.foldl_nil, hload]
  exact migrate_of_settled (.inl ⟨_, List.mem_cons_self, rfl⟩)

/-! ## Opening -/

/-- Creating the missing files writes some of the writable ones, as loaded. -/
theorem materialise_ok {P : Platform Text} {ts : List TopFolder} {w w' : World Text}
    (h : P.materialise ts w = (.ok (), w')) :
    ∃ created, Medium.Wrote w w' created ∧
      ∀ wr ∈ created, ∃ t ∈ ts, t.writable = true ∧ wr = P.topWrite t := by
  induction ts generalizing w with
  | nil =>
      obtain ⟨-, rfl⟩ := Prod.mk.inj h
      exact ⟨[], .refl _, List.forall_mem_nil _⟩
  | cons t ts ih =>
      unfold materialise at h
      split at h
      case isTrue hcreate =>
        simp only [Bool.and_eq_true] at hcreate
        rcases Medium.write_cases w (P.topWrite t).1 (P.topWrite t).2 with
          ⟨n, hw, hwrote⟩ | ⟨e, n, hw, -⟩
        · rw [hw] at h
          obtain ⟨created, hrest, hall⟩ := ih h
          refine ⟨P.topWrite t :: created, hwrote.trans hrest, fun wr hwr => ?_⟩
          rcases List.mem_cons.mp hwr with rfl | hwr
          · exact ⟨t, List.mem_cons_self, hcreate.1, rfl⟩
          · obtain ⟨u, hu, hwritable, rfl⟩ := hall wr hwr
            exact ⟨u, List.mem_cons_of_mem _ hu, hwritable, rfl⟩
        · rw [hw] at h
          cases h
      case isFalse =>
        obtain ⟨created, hrest, hall⟩ := ih h
        refine ⟨created, hrest, fun wr hwr => ?_⟩
        obtain ⟨u, hu, hwritable, rfl⟩ := hall wr hwr
        exact ⟨u, List.mem_cons_of_mem _ hu, hwritable, rfl⟩

/-- A successful open. -/
structure Opens (P : Platform Text) (dir : Path) (w : World Text) (s : Store Text)
    (index : LibraryIndex) (created : List (FileId × Entry Text)) : Prop where
  read : P.readIndex w.store (dir.file "library.json") = .ok index
  lib : s.lib = migrateLegacyDefault (P.loadIndex w.store dir (seed dir index))
  wrote : Medium.Wrote w s.world (P.indexWrite s.lib :: created)
  created : ∀ wr ∈ created, ∃ t ∈ s.lib.tops, t.writable = true ∧ wr = P.topWrite t

theorem openStore_cases {dir : Path} {made : Except StoreError Unit} {w : World Text}
    {s : Store Text} (h : P.openStore dir made w = some s) :
    ∃ index created, P.Opens dir w s index created := by
  unfold openStore openIn at h
  cases made with
  | error e => cases h
  | ok u =>
      cases hindex : P.readIndex w.store (dir.file "library.json") with
      | error e =>
          simp only [hindex] at h
          cases h
      | ok index =>
          simp only [hindex] at h
          generalize hlib : migrateLegacyDefault (P.loadIndex w.store dir (seed dir index)) = lib
            at h
          rcases Medium.write_cases w (P.indexWrite lib).1 (P.indexWrite lib).2 with
            ⟨n, hw, hwrote⟩ | ⟨e, n, hw, -⟩
          · simp only [hw] at h
            generalize hmat : P.materialise lib.tops n = res at h
            obtain ⟨r, n'⟩ := res
            cases r with
            | error e => cases h
            | ok u =>
                obtain rfl := Option.some.inj h
                obtain ⟨created, hcreated, hall⟩ := materialise_ok hmat
                exact ⟨index, created, hindex, hlib.symm, hwrote.trans hcreated, hall⟩
          · simp only [hw] at h
            cases h

theorem Opens.fits {dir : Path} {w : World Text} {s : Store Text} {index : LibraryIndex}
    {created : List (FileId × Entry Text)} (h : P.Opens dir w s index created) :
    P.Fits w.store dir s.lib := by
  rw [h.lib]
  exact (P.fits_loadIndex w.store dir (seed dir index)).migrate

theorem Opens.index_text {dir : Path} {w : World Text} {s : Store Text} {index : LibraryIndex}
    {created : List (FileId × Entry Text)} (h : P.Opens dir w s index created)
    (hapart : s.lib.IndexApart P) :
    s.world.store (P.fileOf s.lib.indexPath) = .file (P.encodeIndex s.lib.index) := by
  have hother : ∀ wr ∈ created, wr.1 ≠ P.fileOf s.lib.indexPath := by
    intro wr hwr hfile
    obtain ⟨t, ht, -, rfl⟩ := h.created wr hwr
    exact hapart t ht hfile
  rw [h.wrote.store]
  exact (apply_of_not_mem hother _).trans (Function.update_self ..)

end Platform

end PolyTerm.Saved
