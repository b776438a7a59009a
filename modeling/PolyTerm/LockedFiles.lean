import PolyTerm.LibraryCalls

/-!
# Files that could not be read

A file that exists and could not be read or parsed when it was loaded is
included as a folder that is not writable. Not every write checks that flag:
taking a session out of the tree saves whatever files it was in. What keeps the
file safe is that such a folder has no contents (`LockedEmpty`), so there is
never anything to take out of it. It does not keep a save from using the file as
its temporary one: a file included under the name of another one's is gone once
that is saved (`unreadable_removed`).
-/

namespace PolyTerm.Saved

open Runs Writes

variable {Text : Type}

namespace SessionLibrary

/-- What is not writable has nothing in it. -/
def LockedEmpty (lib : SessionLibrary) : Prop :=
  ∀ t ∈ lib.tops, t.writable = false → t.data = .empty

/-- A change of contents passes over what is not writable. -/
theorem Revised.locked {lib lib' : SessionLibrary} {idxs : List Nat} (h : Revised lib lib' idxs)
    (hempty : LockedEmpty lib) {i : Nat} {t : TopFolder} (ht : lib.tops[i]? = some t)
    (hlocked : t.writable = false) : lib'.tops[i]? = some t ∧ i ∉ idxs := by
  have hout : i ∉ idxs := by
    intro hi
    obtain ⟨u, hu, hsaved⟩ := h.saved i hi
    obtain rfl := Option.some.inj (hu.symm.trans ht)
    rcases hsaved with hwritable | hsessions
    · exact absurd hwritable (by simp [hlocked])
    · rw [hempty u (List.mem_of_getElem? hu) hlocked] at hsessions
      exact hsessions rfl
  obtain ⟨data, hdata, hkeep⟩ := h.contents i t ht
  rw [hkeep hout] at hdata
  exact ⟨hdata, hout⟩

theorem Revised.lockedEmpty {lib lib' : SessionLibrary} {idxs : List Nat}
    (h : Revised lib lib' idxs) (hempty : LockedEmpty lib) : LockedEmpty lib' := by
  intro t' ht' hlocked
  obtain ⟨i, hi⟩ := List.mem_iff_getElem?.mp ht'
  obtain ⟨t, ht, heq, -⟩ := h.top hi
  have hlocked' : t.writable = false := by
    rw [heq] at hlocked
    exact hlocked
  have hsame : lib'.tops[i]? = some t := (h.locked hempty ht hlocked').1
  obtain rfl := Option.some.inj (hi.symm.trans hsame)
  exact hempty _ (List.mem_of_getElem? ht) hlocked

theorem LockedEmpty.include {lib : SessionLibrary} (h : LockedEmpty lib) {t : TopFolder}
    (ht : t.writable = false → t.data = .empty) : LockedEmpty (lib.include t) := by
  intro u hu hlocked
  rcases List.mem_append.mp hu with hu | hu
  · exact h u hu hlocked
  · obtain rfl := List.mem_singleton.mp hu
    exact ht hlocked

end SessionLibrary

namespace Platform

open SessionLibrary

variable {P : Platform Text}

theorem Fits.lockedEmpty {disk : FileId → Entry Text} {dir : Path} {lib : SessionLibrary}
    (h : P.Fits disk dir lib) : LockedEmpty lib := fun t ht => (h.loaded t ht).locked

theorem Fits.not_writable {disk : FileId → Entry Text} {dir : Path} {lib : SessionLibrary}
    (h : P.Fits disk dir lib) {t : TopFolder} (ht : t ∈ lib.tops)
    (hbad : P.Unloadable disk t.path) : t.writable = false := by
  have hload : P.loadFile disk t.path = (t.data, t.writable, t.error) := h.loaded t ht
  have hlocked := loadFile_unloadable hbad
  rw [hload] at hlocked
  exact hlocked

/-- Opening creates files for writable folders only. -/
theorem Opens.spared {dir : Path} {w : World Text} {s : Store Text} {index : LibraryIndex}
    {created : List (FileId × Entry Text)} (h : P.Opens dir w s index created)
    (hapart : s.lib.Apart P) {t : TopFolder} (ht : t ∈ s.lib.tops) (hlocked : t.writable = false) :
    Medium.Spared (P.fileOf t.path) w s.world := by
  refine ⟨_, h.wrote, fun wr hwr => ?_⟩
  rcases List.mem_cons.mp hwr with rfl | hwr
  · exact (hapart.2 t ht).symm
  · obtain ⟨u, hu, hwritable, rfl⟩ := h.created wr hwr
    intro hfile
    obtain rfl : u = t := List.inj_on_of_nodup_map hapart.1 hu ht hfile
    exact absurd hwritable (by simp [hlocked])

end Platform

namespace Store

open SessionLibrary

variable (P : Platform Text)

theorem saveIndex_spared (s : Store Text) (hapart : s.lib.IndexApart P) {t : TopFolder}
    (ht : t ∈ s.lib.tops) :
    Medium.Spared (P.fileOf t.path) s.world (s.saveIndex P).2.world := by
  obtain ⟨done, hpre, hwrote⟩ := save_wrote s [P.indexWrite s.lib]
  refine ⟨done, hwrote, fun wr hwr => ?_⟩
  obtain rfl := List.mem_singleton.mp (hpre.subset hwr)
  exact (hapart t ht).symm

/-- Creating the file of a new folder leaves those of the others alone. -/
theorem created_spared {s : Store Text} {new : TopFolder} {w : World Text}
    {pre : List (FileId × Entry Text)} (hapart : (s.lib.include new).FilesApart P)
    (hwrote : Medium.Wrote s.world w pre)
    (hpre : pre = (if (s.world.store (P.fileOf new.path)).exists then []
      else [(P.fileOf new.path, .file (P.encodeSessions .empty))])) {t : TopFolder}
    (ht : t ∈ s.lib.tops) : Medium.Spared (P.fileOf t.path) s.world w := by
  refine ⟨pre, hwrote, fun wr hwr hold => ?_⟩
  have hnew : wr.1 = P.fileOf new.path := by
    rw [mem_created hpre hwr]
  rw [FilesApart, SessionLibrary.include, List.map_append] at hapart
  refine (List.nodup_append.mp hapart).2.2 _ (List.mem_map_of_mem ht) _ List.mem_cons_self ?_
  exact hold.symm.trans hnew

theorem call_lockedEmpty {s : Store Text} (h : LockedEmpty s.lib) (op : LibraryOp) :
    LockedEmpty (s.call P op).2.lib := by
  have hcases := call_cases P s op
  generalize s.call P op = res at hcases ⊢
  cases hcases with
  | refused op e hwrote => exact h
  | nothing op _ _ => exact h
  | edit hop hedit => exact hedit.lockedEmpty h
  | added hname hfresh hwrote hpre => exact h.include Platform.loadFile_locked
  | removed ht => exact fun t ht => h t ((List.eraseIdx_sublist ..).subset ht)

/-- A call other than its removal keeps what is not writable as it is, and
does not write its file. -/
theorem call_locked {s : Store Text} (hempty : LockedEmpty s.lib) {op : LibraryOp}
    (hafter : (s.call P op).2.lib.Apart P) {t : TopFolder} (ht : t ∈ s.lib.tops)
    (hlocked : t.writable = false) (hop : op ≠ .removeTopFolder t.name) :
    t ∈ (s.call P op).2.lib.tops ∧
      Medium.Spared (P.fileOf t.path) s.world (s.call P op).2.world := by
  have hcases := call_cases P s op
  generalize s.call P op = res at hcases hafter ⊢
  cases hcases with
  | refused op e hwrote => exact ⟨ht, [], hwrote, List.forall_mem_nil _⟩
  | nothing op _ _ => exact ⟨ht, .refl _ _⟩
  | @edit _ _ lib' idxs hedit =>
      obtain ⟨i, hi⟩ := List.mem_iff_getElem?.mp ht
      obtain ⟨hi', hout⟩ := hedit.locked hempty hi hlocked
      refine ⟨List.mem_of_getElem? hi', ?_⟩
      obtain ⟨done, hpre, hwrote⟩ := save_wrote { s with lib := lib' } (lib'.topWrites P idxs)
      refine ⟨done, hwrote, fun wr hwr hfile => ?_⟩
      -- a file that is saved is another one
      obtain ⟨j, hj, u, hu, rfl⟩ := mem_topWrites.mp (hpre.subset hwr)
      exact hout (hafter.1.index_eq hu hi' hfile ▸ hj)
  | @added name name' path w pre hname hfresh hwrote hpre =>
      have hmem : t ∈ (s.lib.include (P.loadTop w.store name' (s.resolveFilePath P path))).tops :=
        List.mem_append_left _ ht
      have hcreated : Medium.Spared (P.fileOf t.path) s.world w :=
        created_spared P hafter.1 hwrote hpre ht
      exact ⟨hmem, hcreated.trans (saveIndex_spared P ⟨_, w⟩ hafter.2 hmem)⟩
  | @removed pos u hu =>
      have hmem : t ∈ s.lib.tops.eraseIdx pos := by
        obtain ⟨i, hi⟩ := List.mem_iff_getElem?.mp ht
        refine List.mem_eraseIdx_iff_getElem?.mpr ⟨i, fun hpos => hop ?_, hi⟩
        subst hpos
        obtain rfl := Option.some.inj (hu.symm.trans hi)
        rfl
      exact ⟨hmem, saveIndex_spared P
        { s with lib := { s.lib with tops := s.lib.tops.eraseIdx pos } } hafter.2 hmem⟩

/-- A call that loads a file which cannot be read makes a folder of it that
is not writable, and does not write the file. -/
theorem call_loads {s : Store Text} (op : LibraryOp) {t : TopFolder}
    (ht : t ∈ (s.call P op).2.lib.tops) (hnew : ∀ u ∈ s.lib.tops, u.path ≠ t.path)
    (hexists : (s.world.store (P.fileOf t.path)).exists = true)
    (hbad : P.Unloadable s.world.store t.path) :
    t.writable = false ∧ ((s.call P op).2.lib.Apart P →
      Medium.Spared (P.fileOf t.path) s.world (s.call P op).2.world) := by
  have hcases := call_cases P s op
  generalize s.call P op = res at hcases ht ⊢
  cases hcases with
  | refused op e hwrote => exact absurd rfl (hnew t ht)
  | nothing op _ _ => exact absurd rfl (hnew t ht)
  | edit hop hedit =>
      obtain ⟨i, hi⟩ := List.mem_iff_getElem?.mp ht
      obtain ⟨u, hu, heq, -⟩ := hedit.top hi
      exact absurd (by rw [heq]) (hnew u (List.mem_of_getElem? hu))
  | removed _ => exact absurd rfl (hnew t ((List.eraseIdx_sublist ..).subset ht))
  | @added name name' path w pre hname hfresh hwrote hpre =>
      rcases List.mem_append.mp ht with hold | hmem
      · exact absurd rfl (hnew t hold)
      · obtain rfl := List.mem_singleton.mp hmem
        generalize s.resolveFilePath P path = file at *
        have hfile : P.Unloadable s.world.store file := hbad
        -- the file exists, so it is not created
        obtain rfl : pre = [] := hpre.trans (if_pos hexists)
        have hstore : w.store = s.world.store := hwrote.store
        have hspared : Medium.Spared (P.fileOf file) s.world w :=
          ⟨[], hwrote, List.forall_mem_nil _⟩
        refine ⟨Platform.loadFile_unloadable (hstore ▸ hfile), fun hafter => ?_⟩
        exact hspared.trans (saveIndex_spared P ⟨_, w⟩ hafter.2 ht)

/-! ## On the disk -/

section Disk

variable {β : Type} {P : Platform (List β)} {pid : Nat}

/-- No save of the call has this as its temporary file. -/
def Clears (P : Platform (List β)) (pid : Nat) (s : Store (List β)) (op : LibraryOp)
    (path : Path) : Prop :=
  ∀ save ∈ s.saves P op, P.fileOf (save.1.temp pid) ≠ P.fileOf path

instance (s : Store (List β)) (op : LibraryOp) (path : Path) : Decidable (s.Clears P pid op path) :=
  inferInstanceAs (Decidable (∀ save ∈ s.saves P op, _))

/-- The call neither removes the folder nor has its file for a temporary one,
and leaves the files apart. -/
def Guards (P : Platform (List β)) (pid : Nat) (t : TopFolder) (s : Store (List β))
    (c : DiskCall) : Prop :=
  c.op ≠ .removeTopFolder t.name ∧ s.Clears P pid c.op t.path ∧
    ∀ after ∈ s.stepOnDisk P pid c, after.lib.Apart P

instance (t : TopFolder) (s : Store (List β)) (c : DiskCall) : Decidable (Guards P pid t s c) :=
  inferInstanceAs (Decidable (_ ∧ _ ∧ ∀ after ∈ s.stepOnDisk P pid c, _))

theorem Clears.aside {s : Store (List β)} {op : LibraryOp} {path : Path}
    (h : s.Clears P pid op path) (hthere : s.world.store (P.fileOf path) ≠ .missing) :
    Aside P.fileOf pid s.world.store ((s.saves P op).map Prod.fst) (P.fileOf path) := by
  refine ⟨fun p hp => ?_, .inl hthere⟩
  obtain ⟨save, hsave, rfl⟩ := List.mem_map.mp hp
  exact h save hsave

/-- A file spared by whole writes is untouched if no save uses it. -/
theorem Shadows.untouched {s t : Store (List β)} {op : LibraryOp} {r : Except StoreError Unit}
    {fates : List (Option StoreError)} {w : World (List β)} (h : Shadows P pid s op r t fates w)
    {path : Path} (hclears : s.Clears P pid op path)
    (hthere : s.world.store (P.fileOf path) ≠ .missing)
    (hspared : Medium.Spared (P.fileOf path) ⟨s.world.store, fates, s.world.log⟩ w) :
    Medium.Untouched (P.fileOf path) s.world t.world := by
  obtain ⟨done, hwrote, hk⟩ := id hspared
  exact ⟨(h.disk _ (hclears.aside hthere)).trans hspared.store, done, h.log.trans hwrote.log, hk⟩

theorem stepOnDisk_shadow {s t : Store (List β)} {c : DiskCall}
    (h : s.stepOnDisk P pid c = some t) : ∃ r fates w, Shadows P pid s c.op r t fates w := by
  obtain ⟨⟨r, t'⟩, hcall, rfl⟩ := Option.map_eq_some_iff.mp h
  exact ⟨r, callOnDisk_shadow hcall⟩

theorem Shadows.lib {s t : Store (List β)} {op : LibraryOp} {r : Except StoreError Unit}
    {fates : List (Option StoreError)} {w : World (List β)} (h : Shadows P pid s op r t fates w) :
    ((⟨s.lib, ⟨s.world.store, fates, s.world.log⟩⟩ : Store (List β)).call P op).2.lib = t.lib := by
  rw [h.call]

theorem stepOnDisk_lockedEmpty {s t : Store (List β)} {c : DiskCall} (hs : LockedEmpty s.lib)
    (h : s.stepOnDisk P pid c = some t) : LockedEmpty t.lib := by
  obtain ⟨r, fates, w, hshadow⟩ := stepOnDisk_shadow h
  rw [← hshadow.lib]
  exact call_lockedEmpty P (s := ⟨s.lib, ⟨s.world.store, fates, s.world.log⟩⟩) hs c.op

theorem run_lockedEmpty {s u : Store (List β)} {calls : List DiskCall} (hs : LockedEmpty s.lib)
    (hrun : run (stepOnDisk P pid) s calls = some u) : LockedEmpty u.lib :=
  invariant (I := fun u : Store (List β) => LockedEmpty u.lib)
    (fun _ _ _ hv hstep => stepOnDisk_lockedEmpty hv hstep) hs hrun

/-- One call keeps what is not writable, and its file. -/
theorem step_locked {s v : Store (List β)} {c : DiskCall} (hempty : LockedEmpty s.lib)
    {t : TopFolder} (ht : t ∈ s.lib.tops) (hlocked : t.writable = false)
    (hthere : s.world.store (P.fileOf t.path) ≠ .missing) (hguards : Guards P pid t s c)
    (h : s.stepOnDisk P pid c = some v) :
    t ∈ v.lib.tops ∧ Medium.Untouched (P.fileOf t.path) s.world v.world := by
  obtain ⟨hstays, hclears, hapart⟩ := hguards
  obtain ⟨r, fates, w, hshadow⟩ := stepOnDisk_shadow h
  have hkept := call_locked P (s := ⟨s.lib, ⟨s.world.store, fates, s.world.log⟩⟩) hempty
    (hshadow.lib ▸ hapart v h) ht hlocked hstays
  rw [hshadow.call] at hkept
  exact ⟨hkept.1, hshadow.untouched hclears hthere hkept.2⟩

/-- A folder that is not writable stays in the tree as it is until it is
removed, and its file is left alone. -/
theorem run_locked {s u : Store (List β)} {calls : List DiskCall} (hempty : LockedEmpty s.lib)
    {t : TopFolder} (ht : t ∈ s.lib.tops) (hlocked : t.writable = false)
    (hthere : s.world.store (P.fileOf t.path) ≠ .missing)
    (halong : Along (stepOnDisk P pid) (Guards P pid t) s calls)
    (hrun : run (stepOnDisk P pid) s calls = some u) :
    t ∈ u.lib.tops ∧ Medium.Untouched (P.fileOf t.path) s.world u.world := by
  have hinv : LockedEmpty u.lib ∧ t ∈ u.lib.tops ∧
      Medium.Untouched (P.fileOf t.path) s.world u.world := by
    refine run_invariant (I := fun v : Store (List β) => LockedEmpty v.lib ∧ t ∈ v.lib.tops ∧
      Medium.Untouched (P.fileOf t.path) s.world v.world)
      (fun v c v' hv hguards hstep => ?_) ⟨hempty, ht, .refl _ _⟩ halong hrun
    obtain ⟨hvempty, hvt, hvsame⟩ := hv
    have hvthere : v.world.store (P.fileOf t.path) ≠ .missing := by
      rw [hvsame.store]
      exact hthere
    obtain ⟨hmem, hsame⟩ := step_locked hvempty hvt hlocked hvthere hguards hstep
    exact ⟨stepOnDisk_lockedEmpty hvempty hstep, hmem, hvsame.trans hsame⟩
  exact hinv.2

/-- Whatever is on disk, whatever is called and whichever system calls fail: a
folder loaded from a file that exists and cannot be read or parsed, when the
library is opened or later, is not writable; it stays so and empty until it is
removed, and its file is left alone as long as no save has it for a temporary
file. -/
theorem unreadable_never_written {dir : Path} {made : Except StoreError Unit} {w : World (List β)}
    {outcomes : List (List Outcome)} {s u : Store (List β)} {calls : List DiskCall}
    (hopen : P.openOnDisk pid dir made w outcomes = some s)
    (hrun : run (stepOnDisk P pid) s calls = some u) :
    (∀ t ∈ s.lib.tops, P.Unloadable w.store t.path →
      t.writable = false ∧ (s.lib.Apart P →
        (∀ path ∈ s.lib.paths, P.fileOf (path.temp pid) ≠ P.fileOf t.path) →
        Medium.Untouched (P.fileOf t.path) w s.world)) ∧
    (∀ c v, u.stepOnDisk P pid c = some v → ∀ t ∈ v.lib.tops,
      (∀ t' ∈ u.lib.tops, t'.path ≠ t.path) →
      (u.world.store (P.fileOf t.path)).exists = true → P.Unloadable u.world.store t.path →
      t.writable = false ∧ (v.lib.Apart P → u.Clears P pid c.op t.path →
        Medium.Untouched (P.fileOf t.path) u.world v.world)) ∧
    ∀ t ∈ u.lib.tops, t.writable = false →
      t.data = .empty ∧ (u.world.store (P.fileOf t.path) ≠ .missing → ∀ later v,
        Along (stepOnDisk P pid) (Guards P pid t) u later →
        run (stepOnDisk P pid) u later = some v →
        t ∈ v.lib.tops ∧ Medium.Untouched (P.fileOf t.path) u.world v.world) := by
  obtain ⟨index, created, world, hopens, hlog, hdisk⟩ := Platform.openOnDisk_shadow hopen
  have hloaded : LockedEmpty s.lib := hopens.fits.lockedEmpty
  have hempty := run_lockedEmpty hloaded hrun
  refine ⟨fun t ht hbad => ?_, fun c v hstep t ht hnew hexists hbad => ?_,
    fun t ht hlocked => ⟨hempty t ht hlocked, fun hthere later v halong hlater =>
      run_locked hempty ht hlocked hthere halong hlater⟩⟩
  · have hlocked : t.writable = false := hopens.fits.not_writable ht hbad
    refine ⟨hlocked, fun hapart htemps => ?_⟩
    have hspared := hopens.spared hapart ht hlocked
    obtain ⟨done, hwrote, hk⟩ := id hspared
    exact ⟨(hdisk _ (.inl ⟨htemps, .inl hbad.1⟩)).trans hspared.store, done,
      hlog.trans hwrote.log, hk⟩
  · obtain ⟨r, fates, w', hshadow⟩ := stepOnDisk_shadow hstep
    have hloads := call_loads P (s := ⟨u.lib, ⟨u.world.store, fates, u.world.log⟩⟩) c.op (t := t)
      (hshadow.lib ▸ ht) hnew hexists hbad
    rw [hshadow.call] at hloads
    exact ⟨hloads.1, fun hapart hclears => hshadow.untouched hclears hbad.1 (hloads.2 hapart)⟩

/-- The default file is not JSON; a second file has a session. -/
def corruptDisk : World (List Document) where
  store file :=
    if file.name = "library.json" then
      .file [.index ⟨[⟨"General", sampleDir.file "sessions.json"⟩,
        ⟨"Work", sampleDir.file "work.json"⟩]⟩]
    else if file.name = "sessions.json" then .file [.other "\x7b this is not json"]
    else if file.name = "work.json" then
      .file [.sessions ⟨[], [⟨⟨1⟩, "web", [], .localShell ⟨none, none, []⟩, .prompt⟩]⟩]
    else if file.name = "home" ∨ file.name = ".polyterm" then .directory
    else .missing
  fates := []
  log := []

/-- Moves the session into the corrupt file, which is refused, includes a third
file, whose index fails to be saved at first, and deletes the session. -/
def corruptCalls : List DiskCall :=
  [⟨.moveSession ⟨1⟩ ["General"], []⟩,
    ⟨.addFile "More" ⟨false, [.normal "more.json"]⟩,
      [goesThrough, [.ok, .ok, .failed "none", .ok, .failed "full"]]⟩,
    ⟨.addFile "Other" ⟨false, [.normal "other.json"]⟩,
      [goesThrough, [.ok, .ok, .ok, .ok, .wrote 1, .ok]]⟩,
    ⟨.deleteSession ⟨1⟩, [goesThrough]⟩]

theorem unreadable_never_written_corrupt :
    ∃ s u t, Platform.flat.openOnDisk 7 sampleDir (.ok ()) corruptDisk [goesThrough] = some s ∧
      run (stepOnDisk .flat 7) s corruptCalls = some u ∧ t ∈ u.lib.tops ∧ t.data = .empty ∧
      Medium.Untouched (Platform.flat.fileOf t.path) s.world u.world := by
  have hopen : (Platform.flat.openOnDisk 7 sampleDir (.ok ()) corruptDisk [goesThrough]).any
      (fun s => decide ((run (stepOnDisk .flat 7) s corruptCalls).isSome = true ∧
        ∃ t ∈ s.lib.tops, t.writable = false ∧
          s.world.store (Platform.flat.fileOf t.path) ≠ .missing ∧
          Along (stepOnDisk .flat 7) (Guards .flat 7 t) s corruptCalls)) = true := by
    decide +kernel
  obtain ⟨s, hs, hsetup⟩ := (Option.any_eq_true _ _).mp hopen
  obtain ⟨hsome, t, ht, hlocked, hthere, halong⟩ := of_decide_eq_true hsetup
  obtain ⟨u, hu⟩ := Option.isSome_iff_exists.mp hsome
  obtain ⟨hempty, hkeep⟩ := (unreadable_never_written hs (run_nil s)).2.2 t ht hlocked
  obtain ⟨hmem, hsame⟩ := hkeep hthere corruptCalls u halong hu
  exact ⟨s, u, t, hs, hu, hmem, hempty, hsame⟩

/-- A file that is not JSON is included under the name of another one's temporary
file. -/
def hiddenDisk : World (List Document) where
  store file :=
    if file.name = "library.json" then
      .file [.index ⟨[⟨"Work", sampleDir.file "work.json"⟩,
        ⟨"Notes", sampleDir.file ".work.json.7.tmp"⟩]⟩]
    else if file.name = "work.json" then .file [.sessions ⟨[], []⟩]
    else if file.name = ".work.json.7.tmp" then .file [.other "not json"]
    else if file.name = "home" ∨ file.name = ".polyterm" then .directory
    else .missing
  fates := []
  log := []

/-- The folder stays read-only and empty, but the file is gone as soon as the
other one is saved. -/
theorem unreadable_removed :
    ∃ s u t, Platform.flat.openOnDisk 7 sampleDir (.ok ()) hiddenDisk [goesThrough] = some s ∧
      run (stepOnDisk .flat 7) s [⟨.createFolder ["Work", "edge"], [goesOver]⟩] = some u ∧
      s.lib.Apart .flat ∧ u.lib.Apart .flat ∧ t ∈ s.lib.tops ∧ t ∈ u.lib.tops ∧
      t.writable = false ∧ Platform.flat.Unloadable hiddenDisk.store t.path ∧
      s.world.store (Platform.flat.fileOf t.path) = .file [.other "not json"] ∧
      u.world.store (Platform.flat.fileOf t.path) = .missing := by
  have hopen : (Platform.flat.openOnDisk 7 sampleDir (.ok ()) hiddenDisk [goesThrough]).any
      (fun s => (run (stepOnDisk .flat 7) s [⟨.createFolder ["Work", "edge"], [goesOver]⟩]).any
        fun u => decide (s.lib.Apart .flat ∧ u.lib.Apart .flat ∧ ∃ t ∈ s.lib.tops,
          t ∈ u.lib.tops ∧ t.writable = false ∧
          hiddenDisk.store (Platform.flat.fileOf t.path) = .file [.other "not json"] ∧
          s.world.store (Platform.flat.fileOf t.path) = .file [.other "not json"] ∧
          u.world.store (Platform.flat.fileOf t.path) = .missing)) = true := by
    decide +kernel
  obtain ⟨s, hs, hrun⟩ := (Option.any_eq_true _ _).mp hopen
  obtain ⟨u, hu, hsetup⟩ := (Option.any_eq_true _ _).mp hrun
  obtain ⟨hapart, hapart', t, ht, ht', hlocked, htext, hthere, hgone⟩ := of_decide_eq_true hsetup
  refine ⟨s, u, t, hs, hu, hapart, hapart', ht, ht', hlocked,
    ⟨by rw [htext]; nofun, fun text hread => ?_⟩, hthere, hgone⟩
  rw [htext] at hread
  obtain rfl := Except.ok.inj hread
  exact ⟨_, rfl⟩

end Disk

end Store

end PolyTerm.Saved
