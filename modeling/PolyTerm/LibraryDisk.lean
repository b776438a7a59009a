import PolyTerm.LibrarySteps

/-!
# The files of a library

Where included paths name different files (`FilesApart`), saving some of them
puts their contents on disk and leaves the others alone. What a file holds is
read with the same `loadFile` that opening uses, so these facts serve the
reopened library as well as an interrupted save.
-/

namespace PolyTerm.Saved

open Writes

variable {Text : Type}

namespace Platform

variable {P : Platform Text}

theorem loadFile_congr {disk disk' : FileId → Entry Text} {path : Path}
    (h : disk' (P.fileOf path) = disk (P.fileOf path)) :
    P.loadFile disk' path = P.loadFile disk path := by
  simp only [loadFile, h]

/-- A file just saved reads back. -/
theorem loadFile_saved {disk : FileId → Entry Text} {path : Path} {data : SessionFileData}
    (h : disk (P.fileOf path) = .file (P.encodeSessions data)) :
    P.loadFile disk path = (data, true, none) := by
  simp only [loadFile, h, Entry.read, P.decode_sessions]

/-- What is not writable has no contents. -/
theorem loadFile_locked {disk : FileId → Entry Text} {path : Path}
    (h : (P.loadFile disk path).2.1 = false) : (P.loadFile disk path).1 = .empty := by
  unfold loadFile at h ⊢
  split at h
  · split at h
    · cases h
    · rfl
  · cases h
  · rfl

end Platform

namespace SessionLibrary

variable (P : Platform Text) (lib : SessionLibrary)

/-- Different top-level folders have different files. -/
def FilesApart : Prop := (lib.tops.map fun t => P.fileOf t.path).Nodup

/-- No top-level folder's file is the index. -/
def IndexApart : Prop := ∀ t ∈ lib.tops, P.fileOf t.path ≠ P.fileOf lib.indexPath

/-- All these files are different. -/
def Apart : Prop := lib.FilesApart P ∧ lib.IndexApart P

instance : Decidable (lib.FilesApart P) := inferInstanceAs (Decidable (List.Nodup _))

instance : Decidable (lib.IndexApart P) := inferInstanceAs (Decidable (∀ t ∈ lib.tops, _))

instance : Decidable (lib.Apart P) := inferInstanceAs (Decidable (_ ∧ _))

/-- The writes that save the files `idxs`. -/
def topWrites (idxs : List Nat) : List (FileId × Entry Text) :=
  idxs.filterMap fun i => (lib.tops[i]?).map P.topWrite

variable {P lib}

theorem FilesApart.index_eq (h : lib.FilesApart P) {i j : Nat} {t u : TopFolder}
    (ht : lib.tops[i]? = some t) (hu : lib.tops[j]? = some u)
    (hfile : P.fileOf t.path = P.fileOf u.path) : i = j := by
  have hi : i < (lib.tops.map fun t => P.fileOf t.path).length := by
    rw [List.length_map]
    exact (List.getElem?_eq_some_iff.mp ht).1
  refine (List.getElem?_inj hi h).mp ?_
  simp [ht, hu, hfile]

theorem mem_topWrites {idxs : List Nat} {w : FileId × Entry Text} :
    w ∈ lib.topWrites P idxs ↔ ∃ i ∈ idxs, ∃ t, lib.tops[i]? = some t ∧ P.topWrite t = w := by
  simp [topWrites, List.mem_filterMap]

/-- A file that is saved holds its contents. -/
theorem apply_topWrites_mem (h : lib.FilesApart P) {idxs : List Nat} (hidxs : idxs.Nodup)
    {i : Nat} {t : TopFolder} (ht : lib.tops[i]? = some t) (hi : i ∈ idxs)
    (disk : FileId → Entry Text) :
    apply disk (lib.topWrites P idxs) (P.fileOf t.path) = .file (P.encodeSessions t.data) := by
  refine apply_of_mem ?_ (mem_topWrites.mpr ⟨i, hi, t, ht, rfl⟩) disk
  have hkeys : (lib.topWrites P idxs).map Prod.fst =
      idxs.filterMap fun i => (lib.tops[i]?).map fun t => P.fileOf t.path := by
    simp only [topWrites, List.map_filterMap, Option.map_map]
    rfl
  rw [hkeys]
  refine List.Nodup.filterMap (fun i j file hfi hfj => ?_) hidxs
  obtain ⟨u, hu, rfl⟩ := Option.map_eq_some_iff.mp hfi
  obtain ⟨v, hv, hfile⟩ := Option.map_eq_some_iff.mp hfj
  exact h.index_eq hu hv hfile.symm

/-- A file that is not saved stays as it was. -/
theorem apply_topWrites_not_mem (h : lib.FilesApart P) {idxs : List Nat} {i : Nat} {t : TopFolder}
    (ht : lib.tops[i]? = some t) (hi : i ∉ idxs) (disk : FileId → Entry Text) :
    apply disk (lib.topWrites P idxs) (P.fileOf t.path) = disk (P.fileOf t.path) := by
  refine apply_of_not_mem (fun w hw hfile => hi ?_) disk
  obtain ⟨j, hj, u, hu, rfl⟩ := mem_topWrites.mp hw
  exact h.index_eq hu ht hfile ▸ hj

/-- An interrupted save has saved the first few files. -/
theorem take_topWrites {idxs : List Nat} (h : ∀ i ∈ idxs, i < lib.tops.length) (k : Nat) :
    (lib.topWrites P idxs).take k = lib.topWrites P (idxs.take k) := by
  induction idxs generalizing k with
  | nil => simp [topWrites]
  | cons i idxs ih =>
      have hlt : i < lib.tops.length := h i List.mem_cons_self
      have hi : lib.tops[i]? = some lib.tops[i] := List.getElem?_eq_getElem hlt
      cases k with
      | zero => simp [topWrites]
      | succ k =>
          have hrest := ih (fun j hj => h j (List.mem_cons_of_mem _ hj)) k
          simpa [topWrites, List.filterMap_cons, hi] using hrest

/-! ## Files and changed contents -/

variable {lib' : SessionLibrary} {idxs : List Nat}

theorem Revised.top (h : Revised lib lib' idxs) {i : Nat} {t' : TopFolder}
    (ht' : lib'.tops[i]? = some t') :
    ∃ t, lib.tops[i]? = some t ∧ t' = { t with data := t'.data } ∧
      (i ∉ idxs → t'.data = t.data) := by
  have hi : i < lib.tops.length := h.length ▸ (List.getElem?_eq_some_iff.mp ht').1
  obtain ⟨data, hdata, hkeep⟩ := h.contents i _ (List.getElem?_eq_getElem hi)
  obtain rfl := Option.some.inj (hdata.symm.trans ht')
  exact ⟨_, List.getElem?_eq_getElem hi, rfl, hkeep⟩

/-- A fact about a folder other than its contents carries over. -/
theorem Revised.map_eq {β : Type} (h : Revised lib lib' idxs) (f : TopFolder → β)
    (hf : ∀ t data, f { t with data := data } = f t) : lib'.tops.map f = lib.tops.map f := by
  refine List.ext_getElem? fun i => ?_
  rw [List.getElem?_map, List.getElem?_map]
  cases ht : lib.tops[i]? with
  | none =>
      have hlen : lib'.tops.length ≤ i := h.length ▸ List.getElem?_eq_none_iff.mp ht
      rw [List.getElem?_eq_none_iff.mpr hlen]
  | some t =>
      obtain ⟨data, hdata, -⟩ := h.contents i t ht
      rw [hdata, Option.map_some, Option.map_some, hf]

theorem Revised.entries (h : Revised lib lib' idxs) :
    lib'.tops.map TopFolder.entry = lib.tops.map TopFolder.entry :=
  h.map_eq TopFolder.entry fun _ _ => rfl

theorem Revised.filesApart (h : Revised lib lib' idxs) (hapart : lib.FilesApart P) :
    lib'.FilesApart P := by
  unfold FilesApart
  rw [h.map_eq (fun t => P.fileOf t.path) fun _ _ => rfl]
  exact hapart

theorem Revised.lt_length (h : Revised lib lib' idxs) : ∀ i ∈ idxs, i < lib'.tops.length := by
  intro i hi
  obtain ⟨t, ht, -⟩ := h.saved i hi
  exact h.length ▸ (List.getElem?_eq_some_iff.mp ht).1

theorem Revised.nodup (h : Revised lib lib' idxs) : idxs.Nodup := h.ascending.imp Nat.ne_of_lt

/-- What the first `k` writes of a save leave in the file of a folder. -/
theorem loadFile_interrupted (h : Revised lib lib' idxs) (hapart : lib.FilesApart P) {i : Nat}
    {t t' : TopFolder} (ht : lib.tops[i]? = some t) (ht' : lib'.tops[i]? = some t')
    (disk : FileId → Entry Text) (k : Nat) :
    P.loadFile (apply disk ((lib'.topWrites P idxs).take k)) t.path =
      if i ∈ idxs.take k then (t'.data, true, none) else P.loadFile disk t.path := by
  have hpath : t'.path = t.path := by
    obtain ⟨u, hu, heq, -⟩ := h.top ht'
    obtain rfl := Option.some.inj (hu.symm.trans ht)
    rw [heq]
  rw [take_topWrites h.lt_length, ← hpath]
  split
  · rename_i hi
    exact Platform.loadFile_saved
      (apply_topWrites_mem (h.filesApart hapart) (h.nodup.sublist (List.take_sublist _ _)) ht' hi _)
  · rename_i hi
    exact Platform.loadFile_congr (apply_topWrites_not_mem (h.filesApart hapart) ht' hi _)

end SessionLibrary

end PolyTerm.Saved
