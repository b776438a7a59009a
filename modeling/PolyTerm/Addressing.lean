import PolyTerm.Reopen

/-!
# Finding a listed path again

The tree lists absolute folders and takes them back: `locate` reads the first
segment as the name of a top-level folder and takes the first file with that
name. Names enter through the index, the legacy rename and `addFile`; whatever
the index holds, they come out trimmed, not empty and pairwise distinct, and
then `locate` leads to the file that the path was listed from.
-/

namespace PolyTerm.Saved

open Runs

variable {Text : Type}

namespace SessionLibrary

/-- `spec` is how the session `stored`, of the file at place `i`, is listed. -/
def Shows (lib : SessionLibrary) (spec : SessionSpec) (i : Nat) (stored : SessionSpec) : Prop :=
  ∃ t, lib.tops[i]? = some t ∧ stored ∈ t.data.sessions ∧
    spec = { stored with folder := prepend t.name stored.folder }

/-- `folder` is how the file at place `i` itself is listed, or its explicit
folder `rel`. -/
def ShowsFolder (lib : SessionLibrary) (folder : FolderPath) (i : Nat) (rel : FolderPath) : Prop :=
  ∃ t, lib.tops[i]? = some t ∧ (rel = [] ∨ rel ∈ t.data.folders) ∧ folder = prepend t.name rel

/-- Every listed path leads back to where it is stored. -/
structure Addressable (lib : SessionLibrary) : Prop where
  named : ∀ t ∈ lib.tops, Trimmed t.name ∧ t.name ≠ ""
  names : (lib.tops.map (·.name)).Nodup
  paths : (lib.tops.map (·.path)).Nodup
  sessions : ∀ lower, ∀ spec ∈ lib.listSessions lower, (∃ i stored, lib.Shows spec i stored) ∧
    ∀ i stored, lib.Shows spec i stored → lib.locate spec.folder = .ok (i, stored.folder)
  folders : ∀ folder ∈ lib.listFolders, (∃ i rel, lib.ShowsFolder folder i rel) ∧
    ∀ i rel, lib.ShowsFolder folder i rel → lib.locate folder = .ok (i, rel)

variable {lib : SessionLibrary}

theorem mem_listSessions {lower : String → String} {spec : SessionSpec} :
    spec ∈ lib.listSessions lower ↔ ∃ i stored, lib.Shows spec i stored := by
  rw [listSessions, (List.perm_insertionSort (listOrder lower) _).mem_iff, List.mem_flatMap]
  constructor
  · rintro ⟨t, ht, hspec⟩
    obtain ⟨i, hi⟩ := List.mem_iff_getElem?.mp ht
    obtain ⟨stored, hstored, rfl⟩ := List.mem_map.mp hspec
    exact ⟨i, stored, t, hi, hstored, rfl⟩
  · rintro ⟨i, stored, t, hi, hstored, rfl⟩
    exact ⟨t, List.mem_of_getElem? hi, List.mem_map.mpr ⟨stored, hstored, rfl⟩⟩

theorem mem_listFolders {folder : FolderPath} :
    folder ∈ lib.listFolders ↔ ∃ i rel, lib.ShowsFolder folder i rel := by
  simp only [listFolders, List.mem_flatMap, List.mem_cons, List.mem_map, ShowsFolder]
  constructor
  · rintro ⟨t, ht, rfl | ⟨rel, hrel, rfl⟩⟩
    · obtain ⟨i, hi⟩ := List.mem_iff_getElem?.mp ht
      exact ⟨i, [], t, hi, Or.inl rfl, rfl⟩
    · obtain ⟨i, hi⟩ := List.mem_iff_getElem?.mp ht
      exact ⟨i, rel, t, hi, Or.inr hrel, rfl⟩
  · rintro ⟨i, rel, t, hi, rfl | hrel, rfl⟩
    · exact ⟨t, List.mem_of_getElem? hi, Or.inl rfl⟩
    · exact ⟨t, List.mem_of_getElem? hi, Or.inr ⟨rel, hrel, rfl⟩⟩

/-- With distinct names, a path below a top-level folder leads to its file. -/
theorem locate_prepend (h : Tidy lib) {i : Nat} {t : TopFolder} (hi : lib.tops[i]? = some t)
    (rel : FolderPath) : lib.locate (prepend t.name rel) = .ok (i, rel) := by
  have hfind : (lib.tops.findIdx? fun u => u.name = t.name) = some i := by
    obtain ⟨hlt, hget⟩ := List.getElem?_eq_some_iff.mp hi
    refine List.findIdx?_eq_some_iff_getElem.mpr ⟨hlt, by simp [hget], fun j hj => ?_⟩
    have hnames := List.pairwise_map.mp h.names
    have hne := List.pairwise_iff_getElem.mp hnames j i (hj.trans hlt) hlt hj
    rw [hget] at hne
    simp [hne]
  simp only [prepend, locate, hfind]

theorem Tidy.locates (h : Tidy lib) : Addressable lib where
  named t ht := nonBlank_eq_some (h.trimmed t ht)
  names := h.names
  paths := h.paths
  sessions lower spec hspec := by
    refine ⟨mem_listSessions.mp hspec, ?_⟩
    rintro i stored ⟨t, hi, -, rfl⟩
    exact locate_prepend h hi stored.folder
  folders folder hfolder := by
    refine ⟨mem_listFolders.mp hfolder, ?_⟩
    rintro i rel ⟨t, hi, -, rfl⟩
    exact locate_prepend h hi rel

end SessionLibrary

namespace Store

/-- Whatever the index holds, every path listed after any calls leads back to
where it is stored. -/
theorem addressable (P : Platform Text) {dir : Path} {made : Except StoreError Unit}
    {w : World Text} {s s' : Store Text} {ops : List LibraryOp}
    (hopen : P.openStore dir made w = some s) (hrun : run (step P) s ops = some s') :
    s'.lib.Addressable := by
  obtain ⟨index, created, hopens⟩ := Platform.openStore_cases hopen
  have htidy : s'.lib.Tidy := by
    refine Runs.invariant (I := fun u => u.lib.Tidy) (fun u op v h hstep => ?_)
      hopens.fits.tidy hrun
    exact Option.some.inj hstep ▸ call_tidy P h op
  exact htidy.locates

/-- An index with a blank name, a padded one, one twice and the legacy one. -/
def untidyIndex : LibraryIndex :=
  ⟨[⟨"  ", sampleDir.file "blank.json"⟩, ⟨" Work ", sampleDir.file "work.json"⟩,
    ⟨"Work", sampleDir.file "other.json"⟩, ⟨"Sessions", sampleDir.file "sessions.json"⟩]⟩

def untidyDisk : World Document :=
  { freshDisk with
    store := fun file =>
      if file = Platform.plain.fileOf (sampleDir.file "library.json") then
        .file (.index untidyIndex)
      else .missing }

theorem addressable_untidy :
    ∃ s s', Platform.openStore .plain sampleDir (.ok ()) untidyDisk = some s ∧
      run (step .plain) s [.createFolder ["Work", "edge"]] = some s' ∧
      s'.lib.listFolders = [["Work"], ["Work", "edge"], ["General"]] ∧ s'.lib.Addressable := by
  have hopen : (Platform.openStore .plain sampleDir (.ok ()) untidyDisk).any (fun s =>
      (run (step .plain) s [.createFolder ["Work", "edge"]]).any fun s' =>
        decide (s'.lib.listFolders = [["Work"], ["Work", "edge"], ["General"]])) = true := by
    decide +kernel
  obtain ⟨s, hs, hrun⟩ := (Option.any_eq_true _ _).mp hopen
  obtain ⟨s', hs', hfolders⟩ := (Option.any_eq_true _ _).mp hrun
  exact ⟨s, s', hs, hs', of_decide_eq_true hfolders, addressable .plain hs hs'⟩

end Store

end PolyTerm.Saved
