import PolyTerm.SessionLibrary

/-!
# What a library call does

Six of the eight calls change the contents of some files in memory and save
those files: `Revised` says what such a change leaves alone, and `edit_cases`
that each of them is refused, does nothing, or is one. The other two change
which files are included (`addFile_cases`, `removeTopFolder_cases`). Nothing
after this file unfolds a call.
-/

namespace PolyTerm.Saved

open Runs Writes

variable {Text : Type}

/-! ## Saving -/

/-- The call neither adds nor removes a file. -/
def LibraryOp.edits : LibraryOp → Bool
  | .addFile _ _ | .removeTopFolder _ => false
  | _ => true

namespace Store

variable (P : Platform Text)

/-- Saving leaves the tree; it writes its whole list, or fails and writes a
proper prefix. -/
theorem save_cases (s : Store Text) (writes : List (FileId × Entry Text)) :
    (∃ w, s.save writes = (.ok (), { s with world := w }) ∧ Medium.Wrote s.world w writes) ∨
      ∃ e w done, s.save writes = (.error e, { s with world := w }) ∧ done <+: writes ∧
        done.length < writes.length ∧ Medium.Wrote s.world w done := by
  rcases Medium.writeAll_cases writes s.world with
    ⟨w, hw, hwrote⟩ | ⟨e, w, done, v, rest, hw, rfl, hwrote⟩
  · exact .inl ⟨w, by simp only [save, hw], hwrote⟩
  · exact .inr ⟨e, w, done, by simp only [save, hw], List.prefix_append _ _, by simp, hwrote⟩

theorem save_wrote (s : Store Text) (writes : List (FileId × Entry Text)) :
    ∃ done, done <+: writes ∧ Medium.Wrote s.world (s.save writes).2.world done := by
  rcases save_cases s writes with ⟨w, heq, hwrote⟩ | ⟨e, w, done, heq, hpre, -, hwrote⟩
  · exact ⟨writes, List.prefix_refl _, by rw [heq]; exact hwrote⟩
  · exact ⟨done, hpre, by rw [heq]; exact hwrote⟩

theorem save_ok {s : Store Text} {writes : List (FileId × Entry Text)}
    (h : (s.save writes).1 = .ok ()) : Medium.Wrote s.world (s.save writes).2.world writes := by
  rcases save_cases s writes with ⟨w, heq, hwrote⟩ | ⟨e, w, done, heq, -, -, -⟩
  · rw [heq]
    exact hwrote
  · rw [heq] at h
    cases h

/-- With no failure to come everything is saved. -/
theorem save_of_fates_nil {s : Store Text} (h : s.world.fates = [])
    (writes : List (FileId × Entry Text)) :
    (s.save writes).1 = .ok () ∧ (s.save writes).2.world.fates = [] := by
  obtain ⟨w, hw, -, hfates⟩ := Medium.writeAll_of_fates_nil h writes
  simp only [save, hw]
  exact ⟨trivial, hfates⟩

end Store

/-! ## Finding a folder -/

namespace SessionLibrary

theorem findIdx_name {lib : SessionLibrary} {name : String} {i : Nat}
    (h : (lib.tops.findIdx? fun t => t.name = name) = some i) :
    ∃ t, lib.tops[i]? = some t ∧ t.name = name := by
  obtain ⟨hi, hname, -⟩ := List.findIdx?_eq_some_iff_getElem.mp h
  exact ⟨_, List.getElem?_eq_getElem hi, of_decide_eq_true hname⟩

theorem locate_ok {lib : SessionLibrary} {folder rel : FolderPath} {idx : Nat}
    (h : lib.locate folder = .ok (idx, rel)) :
    ∃ t, lib.tops[idx]? = some t ∧ folder = t.name :: rel := by
  unfold locate at h
  split at h
  · cases h
  · split at h
    case h_1 idx' hidx =>
      obtain ⟨rfl, rfl⟩ := Prod.mk.inj (Except.ok.inj h)
      obtain ⟨t, ht, rfl⟩ := findIdx_name hidx
      exact ⟨t, ht, rfl⟩
    case h_2 => cases h

theorem ensureWritable_ok {lib : SessionLibrary} {idx : Nat} {t : TopFolder}
    (ht : lib.tops[idx]? = some t) (h : lib.ensureWritable idx = .ok ()) : t.writable = true := by
  unfold ensureWritable at h
  rw [ht] at h
  simp only at h
  split at h
  · assumption
  · cases h

theorem mem_changed {lib : SessionLibrary} {id : SessionId} {i : Nat} :
    i ∈ lib.changed id ↔ ∃ t, lib.tops[i]? = some t ∧ ∃ x ∈ t.data.sessions, x.id = id := by
  have hlen : ∀ t : TopFolder,
      (t.retain id).data.sessions.length ≠ t.data.sessions.length ↔
        ∃ x ∈ t.data.sessions, x.id = id := by
    intro t
    simp only [TopFolder.retain, ne_eq, List.length_filter_eq_length_iff]
    push Not
    simp
  simp only [changed, List.mem_filter, List.mem_range, Option.any_eq_true, decide_eq_true_eq, hlen]
  constructor
  · exact fun h => h.2
  · rintro ⟨t, ht, hx⟩
    exact ⟨(List.getElem?_eq_some_iff.mp ht).1, t, ht, hx⟩

theorem changed_ascending (lib : SessionLibrary) (id : SessionId) :
    (lib.changed id).Pairwise (· < ·) :=
  List.Pairwise.filter _ List.pairwise_lt_range

/-! ## Changed contents -/

/-- `lib'` is `lib` with other contents in the files `idxs`, each of which may
be written or holds a session. -/
structure Revised (lib lib' : SessionLibrary) (idxs : List Nat) : Prop where
  indexPath : lib'.indexPath = lib.indexPath
  dir : lib'.dir = lib.dir
  length : lib'.tops.length = lib.tops.length
  contents : ∀ i t, lib.tops[i]? = some t →
    ∃ data, lib'.tops[i]? = some { t with data := data } ∧ (i ∉ idxs → data = t.data)
  saved : ∀ i ∈ idxs, ∃ t, lib.tops[i]? = some t ∧
    (t.writable = true ∨ t.data.sessions ≠ [])
  ascending : idxs.Pairwise (· < ·)

/-- The tree after an insert: `stored` in the file `idx`, and nowhere else. -/
def upserted (lib : SessionLibrary) (stored : SessionSpec) (idx : Nat) : SessionLibrary :=
  ({ lib with tops := lib.tops.map (·.retain stored.id) } : SessionLibrary).modify idx
    (·.push stored)

/-- The files an insert saves, in order. -/
def affected (lib : SessionLibrary) (id : SessionId) (idx : Nat) : List Nat :=
  ((lib.changed id ++ [idx]).insertionSort (· ≤ ·)).dedup

theorem mem_affected {lib : SessionLibrary} {id : SessionId} {idx i : Nat} :
    i ∈ lib.affected id idx ↔ i ∈ lib.changed id ∨ i = idx := by
  simp [affected]

theorem affected_ascending (lib : SessionLibrary) (id : SessionId) (idx : Nat) :
    (lib.affected id idx).Pairwise (· < ·) := by
  have hsorted : (lib.affected id idx).Pairwise (· ≤ ·) :=
    (List.pairwise_insertionSort (r := (· ≤ ·)) _).sublist (List.dedup_sublist _)
  have hnodup : (lib.affected id idx).Pairwise (· ≠ ·) := List.nodup_dedup _
  exact (hsorted.and hnodup).imp fun h => lt_of_le_of_ne h.1 h.2

theorem upserted_top {lib : SessionLibrary} {stored : SessionSpec} {idx i : Nat} {t : TopFolder}
    (ht : lib.tops[i]? = some t) :
    (lib.upserted stored idx).tops[i]? =
      some (if idx = i then (t.retain stored.id).push stored else t.retain stored.id) := by
  simp only [upserted, modify, List.getElem?_modify, List.getElem?_map, ht, Option.map_some]
  split <;> rfl

theorem upserted_length (lib : SessionLibrary) (stored : SessionSpec) (idx : Nat) :
    (lib.upserted stored idx).tops.length = lib.tops.length := by
  simp [upserted, modify]

theorem retain_eq_self {t : TopFolder} {id : SessionId}
    (h : ∀ x ∈ t.data.sessions, x.id ≠ id) : (t.retain id).data = t.data := by
  have hkeep : t.data.sessions.filter (fun s => s.id ≠ id) = t.data.sessions :=
    List.filter_eq_self.mpr fun x hx => decide_eq_true (h x hx)
  simp only [TopFolder.retain, hkeep]

theorem revised_upserted {lib : SessionLibrary} {stored : SessionSpec} {idx : Nat} {t : TopFolder}
    (ht : lib.tops[idx]? = some t) (hw : t.writable = true) :
    Revised lib (lib.upserted stored idx) (lib.affected stored.id idx) where
  indexPath := rfl
  dir := rfl
  length := upserted_length lib stored idx
  contents i u hu := by
    rw [upserted_top hu]
    by_cases hi : idx = i
    · subst hi
      rw [if_pos rfl]
      exact ⟨_, rfl, fun hmem => absurd (mem_affected.mpr (.inr rfl)) hmem⟩
    · rw [if_neg hi]
      refine ⟨_, rfl, fun hmem => retain_eq_self fun x hx hid => hmem ?_⟩
      exact mem_affected.mpr (.inl (mem_changed.mpr ⟨u, hu, x, hx, hid⟩))
  saved i hi := by
    rcases mem_affected.mp hi with hmem | rfl
    · obtain ⟨u, hu, x, hx, -⟩ := mem_changed.mp hmem
      exact ⟨u, hu, .inr (List.ne_nil_of_mem hx)⟩
    · exact ⟨t, ht, .inl hw⟩
  ascending := affected_ascending lib stored.id idx

theorem revised_takeOut (lib : SessionLibrary) (id : SessionId) :
    Revised lib (lib.takeOut id).1 (lib.changed id) where
  indexPath := rfl
  dir := rfl
  length := List.length_map _
  contents i t ht := by
    refine ⟨(t.retain id).data, by simp [takeOut, ht, TopFolder.retain], fun hmem => ?_⟩
    exact retain_eq_self fun x hx hid => hmem (mem_changed.mpr ⟨t, ht, x, hx, hid⟩)
  saved i hi := by
    obtain ⟨t, ht, x, hx, -⟩ := mem_changed.mp hi
    exact ⟨t, ht, .inr (List.ne_nil_of_mem hx)⟩
  ascending := changed_ascending lib id

theorem revised_modify {lib : SessionLibrary} {idx : Nat} {t : TopFolder}
    (ht : lib.tops[idx]? = some t) (hw : t.writable = true)
    (f : SessionFileData → SessionFileData) :
    Revised lib (lib.modify idx fun t => { t with data := f t.data }) [idx] where
  indexPath := rfl
  dir := rfl
  length := List.length_modify _ _ _
  contents i u hu := by
    by_cases hi : idx = i
    · subst hi
      exact ⟨f u.data, by simp [modify, hu], fun hmem => absurd List.mem_cons_self hmem⟩
    · exact ⟨u.data, by simp [modify, List.getElem?_modify_ne _ _ hi, hu], fun _ => rfl⟩
  saved i hi := by
    obtain rfl := List.mem_singleton.mp hi
    exact ⟨t, ht, .inl hw⟩
  ascending := List.pairwise_singleton _ _

end SessionLibrary

/-! ## Calls that change contents -/

/-- The top-level folder a file is loaded as. -/
def Platform.loadTop (P : Platform Text) (disk : FileId → Entry Text) (name : String)
    (path : Path) : TopFolder :=
  ⟨name, path, (P.loadFile disk path).1, (P.loadFile disk path).2.1, (P.loadFile disk path).2.2⟩

/-- Include one more folder. -/
def SessionLibrary.include (lib : SessionLibrary) (t : TopFolder) : SessionLibrary :=
  { lib with tops := lib.tops ++ [t] }

theorem Platform.loadEntry_fresh {P : Platform Text} {disk : FileId → Entry Text}
    {lib : SessionLibrary} {name name' : String} {path : Path} (hname : nonBlank name = some name')
    (hfresh : ∀ t ∈ lib.tops, t.name ≠ name' ∧ t.path ≠ path) :
    P.loadEntry disk lib name path = lib.include (P.loadTop disk name' path) := by
  have hnew : ¬ (lib.tops.any fun t => t.name = name' || t.path = path) = true := by
    simp only [List.any_eq_true, Bool.or_eq_true, decide_eq_true_eq, not_exists, not_and, not_or]
    exact hfresh
  simp only [loadEntry, hname, if_neg hnew]
  rfl

namespace Store

open SessionLibrary

variable (P : Platform Text)

/-- What a call makes of each world, for a given tree: it is refused, has
nothing to do, or changes contents and saves. -/
inductive EditCall (lib : SessionLibrary) :
    (World Text → Except StoreError Unit × Store Text) → Prop
  | refused (e : StoreError) : EditCall lib fun w => (.error e, ⟨lib, w⟩)
  | nothing : EditCall lib fun w => (.ok (), ⟨lib, w⟩)
  | edit {lib' : SessionLibrary} {idxs : List Nat} (h : Revised lib lib' idxs) :
      EditCall lib fun w => saveTops P ⟨lib', w⟩ idxs

theorem EditCall.of_eq {lib : SessionLibrary}
    {f g : World Text → Except StoreError Unit × Store Text} (hg : EditCall P lib g)
    (h : ∀ w, f w = g w) : EditCall P lib f := by
  obtain rfl : f = g := funext h
  exact hg

/-- An insert that passes its checks. -/
structure Accepts (lib : SessionLibrary) (spec : SessionSpec) (idx : Nat) (rel : FolderPath)
    (t : TopFolder) : Prop where
  locate : lib.locate spec.folder = .ok (idx, rel)
  top : lib.tops[idx]? = some t
  writable : t.writable = true
  folder : spec.folder = t.name :: rel

theorem upsertSession_cases (lib : SessionLibrary) (spec : SessionSpec) :
    (∃ e, ∀ w, (⟨lib, w⟩ : Store Text).upsertSession P spec = (.error e, ⟨lib, w⟩)) ∨
      ∃ idx rel t, Accepts lib spec idx rel t := by
  cases hloc : lib.locate spec.folder with
  | error e => exact .inl ⟨e, fun w => by simp only [upsertSession, hloc]⟩
  | ok place =>
      obtain ⟨idx, rel⟩ := place
      obtain ⟨t, ht, hfolder⟩ := locate_ok hloc
      cases hw : lib.ensureWritable idx with
      | error e => exact .inl ⟨e, fun w => by simp only [upsertSession, hloc, hw]⟩
      | ok u => exact .inr ⟨idx, rel, t, hloc, ht, ensureWritable_ok ht hw, hfolder⟩

theorem upsertSession_of_accepts {s : Store Text} {spec : SessionSpec} {idx : Nat}
    {rel : FolderPath} {t : TopFolder} (h : Accepts s.lib spec idx rel t) :
    s.upsertSession P spec =
      saveTops P { s with lib := s.lib.upserted { spec with folder := rel } idx }
        (s.lib.affected spec.id idx) := by
  have hw : s.lib.ensureWritable idx = .ok () := by
    simp only [ensureWritable, h.top, h.writable, if_true]
  simp only [upsertSession, h.locate, hw]
  rfl

theorem upsertSession_edit (lib : SessionLibrary) (spec : SessionSpec) :
    EditCall P lib fun w => (⟨lib, w⟩ : Store Text).upsertSession P spec := by
  rcases upsertSession_cases P lib spec with ⟨e, he⟩ | ⟨idx, rel, t, h⟩
  · exact .of_eq P (.refused e) he
  · have hedit : Revised lib (lib.upserted { spec with folder := rel } idx)
        (lib.affected spec.id idx) := revised_upserted h.top h.writable
    exact .of_eq P (.edit hedit) fun w => upsertSession_of_accepts P (s := ⟨lib, w⟩) h

theorem moveSession_edit (lib : SessionLibrary) (id : SessionId) (folder : FolderPath) :
    EditCall P lib fun w => (⟨lib, w⟩ : Store Text).moveSession P id folder := by
  cases hget : lib.getSession id with
  | some spec =>
      exact .of_eq P (upsertSession_edit P lib { spec with folder := folder }) fun w => by
        simp only [moveSession, hget]
  | none => exact .of_eq P .nothing fun w => by simp only [moveSession, hget]

/-- A duplicate is an insert of the copy. -/
theorem duplicateSession_eq {s : Store Text} {id fresh : SessionId} {spec : SessionSpec}
    (hget : s.lib.getSession id = some spec) :
    s.call P (.duplicateSession id fresh) =
      s.upsertSession P { spec with id := fresh, name := spec.name ++ " copy" } := by
  simp only [call, duplicateSession, hget]
  generalize s.upsertSession P { spec with id := fresh, name := spec.name ++ " copy" } = res
  obtain ⟨r, s'⟩ := res
  cases r <;> rfl

theorem duplicateSession_edit (lib : SessionLibrary) (id fresh : SessionId) :
    EditCall P lib fun w => (⟨lib, w⟩ : Store Text).call P (.duplicateSession id fresh) := by
  cases hget : lib.getSession id with
  | some spec =>
      exact .of_eq P
        (upsertSession_edit P lib { spec with id := fresh, name := spec.name ++ " copy" })
        fun w => duplicateSession_eq P (s := ⟨lib, w⟩) hget
  | none =>
      exact .of_eq P .nothing fun w => by
        simp only [call, duplicateSession, hget]
        rfl

theorem createFolder_edit (lib : SessionLibrary) (folder : FolderPath) :
    EditCall P lib fun w => (⟨lib, w⟩ : Store Text).createFolder P folder := by
  cases hloc : lib.locate folder with
  | error e => exact .of_eq P (.refused e) fun w => by simp only [createFolder, hloc]
  | ok place =>
      obtain ⟨idx, rel⟩ := place
      obtain ⟨t, ht, -⟩ := locate_ok hloc
      by_cases hroot : rel.isEmpty = true
      · exact .of_eq P .nothing fun w => by simp only [createFolder, hloc, if_pos hroot]
      · cases hw : lib.ensureWritable idx with
        | error e =>
            exact .of_eq P (.refused e) fun w => by
              simp only [createFolder, hloc, if_neg hroot, hw]
        | ok u =>
            by_cases hold : ((lib.tops[idx]?).any fun t => t.data.folders.contains rel) = true
            · exact .of_eq P .nothing fun w => by
                simp only [createFolder, hloc, if_neg hroot, hw, if_pos hold]
            · exact .of_eq P (.edit (revised_modify ht (ensureWritable_ok ht hw) fun d =>
                { d with folders := d.folders ++ [rel] })) fun w => by
                simp only [createFolder, hloc, if_neg hroot, hw, if_neg hold]

theorem deleteFolder_edit (lib : SessionLibrary) (folder : FolderPath) :
    EditCall P lib fun w => (⟨lib, w⟩ : Store Text).deleteFolder P folder := by
  cases hloc : lib.locate folder with
  | error e => exact .of_eq P (.refused e) fun w => by simp only [deleteFolder, hloc]
  | ok place =>
      obtain ⟨idx, rel⟩ := place
      obtain ⟨t, ht, -⟩ := locate_ok hloc
      by_cases hroot : rel.isEmpty = true
      · exact .of_eq P .nothing fun w => by simp only [deleteFolder, hloc, if_pos hroot]
      · cases hw : lib.ensureWritable idx with
        | error e =>
            exact .of_eq P (.refused e) fun w => by
              simp only [deleteFolder, hloc, if_neg hroot, hw]
        | ok u =>
            exact .of_eq P (.edit (revised_modify ht (ensureWritable_ok ht hw) fun d =>
              { sessions := d.sessions.filter fun spec => !isWithin rel spec.folder
                folders := d.folders.filter fun f => !isWithin rel f })) fun w => by
              simp only [deleteFolder, hloc, if_neg hroot, hw]

/-- Each of the six calls that leave the set of files alone. -/
theorem edit_cases (lib : SessionLibrary) {op : LibraryOp} (hop : op.edits = true) :
    EditCall P lib fun w => (⟨lib, w⟩ : Store Text).call P op := by
  cases op with
  | addFile name path => cases hop
  | removeTopFolder name => cases hop
  | upsertSession spec => exact upsertSession_edit P lib spec
  | deleteSession id => exact .edit (revised_takeOut lib id)
  | moveSession id folder => exact moveSession_edit P lib id folder
  | duplicateSession id fresh => exact duplicateSession_edit P lib id fresh
  | createFolder folder => exact createFolder_edit P lib folder
  | deleteFolder folder => exact deleteFolder_edit P lib folder

/-! ## Calls that change which files are included -/

/-- Include a file under a name that passed the checks; it is created if it
does not exist. -/
def addNew (s : Store Text) (name : String) (path : Path) : Except StoreError Unit × Store Text :=
  let (made, s) :=
    if (s.world.store (P.fileOf path)).exists then (.ok (), s)
    else s.save [(P.fileOf path, .file (P.encodeSessions .empty))]
  match made with
  | .error e => (.error e, s)
  | .ok _ => saveIndex P { s with lib := s.lib.include (P.loadTop s.world.store name path) }

/-- The name and the file of a new top-level folder pass the checks. -/
structure Fresh (lib : SessionLibrary) (name : String) (path : Path) : Prop where
  trimmed : nonBlank name = some name
  name : ∀ t ∈ lib.tops, t.name ≠ name
  path : ∀ t ∈ lib.tops, t.path ≠ path

/-- Whether a file is added depends on the tree and on what is on disk. -/
theorem addFile_cases (s : Store Text) (name : String) (path : Path) :
    (∃ e, ∀ w : World Text, w.store = s.world.store →
      (⟨s.lib, w⟩ : Store Text).addFile P name path = (.error e, ⟨s.lib, w⟩)) ∨
    ∃ name', nonBlank name = some name' ∧ Fresh s.lib name' (s.resolveFilePath P path) ∧
      ∀ w : World Text, w.store = s.world.store →
        (⟨s.lib, w⟩ : Store Text).addFile P name path =
          addNew P ⟨s.lib, w⟩ name' (s.resolveFilePath P path) := by
  have hresolve : ∀ w : World Text, w.store = s.world.store →
      (⟨s.lib, w⟩ : Store Text).resolveFilePath P path = s.resolveFilePath P path := by
    intro w hw
    simp only [resolveFilePath, hw]
  cases hname : nonBlank name with
  | none =>
      refine .inl ⟨.duplicateTopFolder "a top-level folder needs a name", fun w _ => ?_⟩
      simp only [addFile, hname]
  | some name' =>
      by_cases hnames : (s.lib.tops.any fun t => t.name = name') = true
      · refine .inl ⟨.duplicateTopFolder
          ("a top-level folder named " ++ P.debug name' ++ " already exists"), fun w _ => ?_⟩
        simp only [addFile, hname, if_pos hnames]
      · by_cases hpaths : (s.lib.tops.any fun t => t.path = s.resolveFilePath P path) = true
        · refine .inl ⟨.duplicateTopFolder
            ((s.resolveFilePath P path).display ++ " is already included"), fun w hw => ?_⟩
          simp only [addFile, hname, hresolve w hw, if_neg hnames, if_pos hpaths]
        · have hfreshName : ∀ t ∈ s.lib.tops, t.name ≠ name' := by simpa using hnames
          have hfreshPath : ∀ t ∈ s.lib.tops, t.path ≠ s.resolveFilePath P path := by
            simpa using hpaths
          have hself : nonBlank name' = some name' :=
            nonBlank_trimmed (nonBlank_eq_some hname).1 (nonBlank_eq_some hname).2
          refine .inr ⟨name', rfl, ⟨hself, hfreshName, hfreshPath⟩, fun w hw => ?_⟩
          have hload : ∀ disk, P.loadEntry disk s.lib name' (s.resolveFilePath P path) =
              s.lib.include (P.loadTop disk name' (s.resolveFilePath P path)) := fun _ =>
            Platform.loadEntry_fresh hself fun t ht => ⟨hfreshName t ht, hfreshPath t ht⟩
          simp only [addFile, hname, hresolve w hw, if_neg hnames, if_neg hpaths, addNew]
          by_cases hexists : (w.store (P.fileOf (s.resolveFilePath P path))).exists = true
          · simp only [if_pos hexists, hload]
          · simp only [if_neg hexists, save]
            generalize Medium.writeAll _ w = result
            obtain ⟨r, w'⟩ := result
            cases r <;> simp only [hload]

theorem addNew_cases (s : Store Text) (name : String) (path : Path) :
    (∃ e w, addNew P s name path = (.error e, { s with world := w }) ∧
        Medium.Wrote s.world w []) ∨
      ∃ w pre, Medium.Wrote s.world w pre ∧
        pre = (if (s.world.store (P.fileOf path)).exists then []
          else [(P.fileOf path, .file (P.encodeSessions .empty))]) ∧
        addNew P s name path =
          saveIndex P ⟨s.lib.include (P.loadTop w.store name path), w⟩ := by
  by_cases hexists : (s.world.store (P.fileOf path)).exists = true
  · refine .inr ⟨s.world, [], .refl _, (if_pos hexists).symm, ?_⟩
    simp only [addNew, if_pos hexists]
  · rcases save_cases s [(P.fileOf path, .file (P.encodeSessions .empty))] with
      ⟨w, hsave, hwrote⟩ | ⟨e, w, done, hsave, -, hlen, hwrote⟩
    · refine .inr ⟨w, _, hwrote, (if_neg hexists).symm, ?_⟩
      simp only [addNew, if_neg hexists, hsave]
    · obtain rfl : done = [] := List.eq_nil_of_length_eq_zero (by simpa using hlen)
      refine .inl ⟨e, w, ?_, hwrote⟩
      simp only [addNew, if_neg hexists, hsave]

theorem removeTopFolder_cases (lib : SessionLibrary) (name : String) :
    ((∀ t ∈ lib.tops, t.name ≠ name) ∧
        ∀ w, (⟨lib, w⟩ : Store Text).removeTopFolder P name = (.ok (), ⟨lib, w⟩)) ∨
      ∃ pos t, lib.tops[pos]? = some t ∧ t.name = name ∧
        ∀ w, (⟨lib, w⟩ : Store Text).removeTopFolder P name =
          saveIndex P ⟨{ lib with tops := lib.tops.eraseIdx pos }, w⟩ := by
  cases hpos : lib.tops.findIdx? fun t => t.name = name with
  | some pos =>
      obtain ⟨t, ht, hname⟩ := findIdx_name hpos
      exact .inr ⟨pos, t, ht, hname, fun w => by simp only [removeTopFolder, hpos]⟩
  | none =>
      refine .inl ⟨fun t ht => ?_, fun w => by simp only [removeTopFolder, hpos]⟩
      simpa using List.findIdx?_eq_none_iff.mp hpos t ht

/-- The one write there can be before the index is that of the new file. -/
theorem mem_created {there : Bool} {wr new : FileId × Entry Text} {pre : List (FileId × Entry Text)}
    (hpre : pre = if there then [] else [new]) (hwr : wr ∈ pre) : wr = new := by
  rw [hpre] at hwr
  split at hwr
  · exact absurd hwr List.not_mem_nil
  · exact List.mem_singleton.mp hwr

/-- What a call comes to. -/
inductive CallCases (s : Store Text) : LibraryOp → Except StoreError Unit × Store Text → Prop
  | refused (op : LibraryOp) (e : StoreError) {w : World Text} (h : Medium.Wrote s.world w []) :
      CallCases s op (.error e, { s with world := w })
  | nothing (op : LibraryOp) (h : ∀ name path, op ≠ .addFile name path)
      (hgone : ∀ name, op = .removeTopFolder name → ∀ t ∈ s.lib.tops, t.name ≠ name) :
      CallCases s op (.ok (), s)
  | edit {op : LibraryOp} (hop : op.edits = true) {lib' : SessionLibrary} {idxs : List Nat}
      (h : Revised s.lib lib' idxs) :
      CallCases s op (saveTops P { s with lib := lib' } idxs)
  | added {name name' : String} {path : Path} {w : World Text}
      {pre : List (FileId × Entry Text)} (hname : nonBlank name = some name')
      (hfresh : Fresh s.lib name' (s.resolveFilePath P path)) (hwrote : Medium.Wrote s.world w pre)
      (hpre : pre = (if (s.world.store (P.fileOf (s.resolveFilePath P path))).exists then []
        else [(P.fileOf (s.resolveFilePath P path), .file (P.encodeSessions .empty))])) :
      CallCases s (.addFile name path)
        (saveIndex P ⟨s.lib.include (P.loadTop w.store name' (s.resolveFilePath P path)), w⟩)
  | removed {pos : Nat} {t : TopFolder} (h : s.lib.tops[pos]? = some t) :
      CallCases s (.removeTopFolder t.name)
        (saveIndex P { s with lib := { s.lib with tops := s.lib.tops.eraseIdx pos } })

theorem call_cases (s : Store Text) (op : LibraryOp) : CallCases P s op (s.call P op) := by
  cases hop : op.edits with
  | true =>
      have hedit := edit_cases P s.lib hop
      generalize hf : (fun w => (⟨s.lib, w⟩ : Store Text).call P op) = f at hedit
      have hcall : s.call P op = f s.world := by rw [← hf]
      rw [hcall]
      cases hedit with
      | refused e => exact .refused op e (.refl _)
      | nothing =>
          refine .nothing op (fun name path h => ?_) (fun name h => ?_) <;>
          · subst h
            cases hop
      | edit h => exact .edit hop h
  | false =>
      cases op with
      | addFile name path =>
          rcases addFile_cases P s name path with ⟨e, he⟩ | ⟨name', hname, hfresh, hadd⟩
          · have hcall : s.call P (.addFile name path) = (.error e, s) := he s.world rfl
            rw [hcall]
            exact .refused _ e (.refl _)
          · have hcall : s.call P (.addFile name path) =
                addNew P s name' (s.resolveFilePath P path) := hadd s.world rfl
            rw [hcall]
            rcases addNew_cases P s name' (s.resolveFilePath P path) with
              ⟨e, w, heq, hwrote⟩ | ⟨w, pre, hwrote, hpre, heq⟩
            · rw [heq]
              exact .refused _ e hwrote
            · rw [heq]
              exact .added hname hfresh hwrote hpre
      | removeTopFolder name =>
          rcases removeTopFolder_cases P s.lib name with ⟨hnone, hcall⟩ | ⟨pos, t, ht, rfl, hcall⟩
          · have hsame : s.call P (.removeTopFolder name) = (.ok (), s) := hcall s.world
            rw [hsame]
            refine .nothing _ (fun _ _ h => by cases h) fun name' h => ?_
            cases h
            exact hnone
          · have hremove : s.call P (.removeTopFolder t.name) = saveIndex P
                { s with lib := { s.lib with tops := s.lib.tops.eraseIdx pos } } := hcall s.world
            rw [hremove]
            exact .removed ht
      | _ => cases hop

/-- No call moves the library. -/
theorem call_paths (s : Store Text) (op : LibraryOp) :
    (s.call P op).2.lib.indexPath = s.lib.indexPath ∧ (s.call P op).2.lib.dir = s.lib.dir := by
  have hcases := call_cases P s op
  generalize s.call P op = res at hcases ⊢
  cases hcases with
  | edit hop hedit => exact ⟨hedit.indexPath, hedit.dir⟩
  | _ => exact ⟨rfl, rfl⟩

end Store

end PolyTerm.Saved
