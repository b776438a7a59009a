import PolyTerm.FolderTree
import PolyTerm.TreeOrder

/-!
# Deleting a folder

A deletion filters one file by the folder relative to it, while the listings
and the tree have absolute folders of all files. With distinct names the two
agree: the listings lose exactly what has the deleted folder for a prefix, and
the tree the nodes at it and below (`deleteFolder_removes_subtree`).
-/

namespace PolyTerm.Saved

open StableSort

/-! ## Folders of one file -/

/-- Without what is at an absolute folder or below it. -/
def TopFolder.without (t : TopFolder) (folder : FolderPath) : TopFolder :=
  { t with data := {
      sessions := t.data.sessions.filter fun spec => ¬ folder <+: prepend t.name spec.folder
      folders := t.data.folders.filter fun f => ¬ folder <+: prepend t.name f } }

theorem isWithin_iff (name : String) (rel folder : FolderPath) :
    isWithin rel folder = true ↔ name :: rel <+: prepend name folder := by
  rw [isWithin, List.isPrefixOf_iff_prefix, prepend, List.cons_prefix_cons]
  exact (and_iff_right rfl).symm

/-- The deletion from the file that the folder is in. -/
theorem TopFolder.without_own (t : TopFolder) (rel : FolderPath) :
    t.without (t.name :: rel) =
      { t with data := {
          sessions := t.data.sessions.filter fun spec => !isWithin rel spec.folder
          folders := t.data.folders.filter fun f => !isWithin rel f } } := by
  have hkeep : ∀ f : FolderPath, decide (¬ t.name :: rel <+: prepend t.name f) =
      !isWithin rel f := fun f => by
    rw [Bool.eq_iff_iff, decide_eq_true_iff, Bool.not_eq_true', ← Bool.not_eq_true, isWithin_iff]
  simp only [TopFolder.without, hkeep]

theorem TopFolder.without_other {t : TopFolder} {first : String} (h : t.name ≠ first)
    (rel : FolderPath) : t.without (first :: rel) = t := by
  have hnot : ∀ f : FolderPath, ¬ first :: rel <+: prepend t.name f := fun f hp =>
    h (List.cons_prefix_cons.mp hp).1.symm
  simp [TopFolder.without, hnot]

theorem TopFolder.sessions_without (t : TopFolder) (folder : FolderPath) :
    (t.without folder).sessions = t.sessions.filter fun x => ¬ folder <+: x.folder := by
  rw [TopFolder.sessions, TopFolder.sessions, List.filter_map]
  rfl

/-! ## The call -/

namespace SessionLibrary

/-- With distinct names the first folder of a name is the only one. -/
theorem tops_modify {lib : SessionLibrary} (hnames : lib.topFolderNames.Nodup) {idx : Nat}
    {t : TopFolder} (ht : lib.tops[idx]? = some t) {rel : FolderPath} {f : TopFolder → TopFolder}
    (hf : f t = t.without (t.name :: rel)) :
    lib.tops.modify idx f = lib.tops.map (·.without (t.name :: rel)) := by
  refine List.ext_getElem? fun i => ?_
  rw [List.getElem?_modify, List.getElem?_map]
  by_cases hi : idx = i
  · subst hi
    simp [ht, hf]
  · cases hu : lib.tops[i]? with
    | none => rfl
    | some u =>
        have hname : u.name ≠ t.name := fun he => hi <| by
          have hget : lib.topFolderNames[idx]? = lib.topFolderNames[i]? := by
            simp [topFolderNames, ht, hu, he]
          exact (List.getElem?_inj (by simpa [topFolderNames] using
            (List.getElem?_eq_some_iff.mp ht).1) hnames).mp hget
        simp [hi, TopFolder.without_other hname]

end SessionLibrary

namespace Store

open SessionLibrary

variable {Text : Type} (P : Platform Text)

/-- A deletion that goes through leaves every file without the folder. -/
theorem deleteFolder_ok {s s' : Store Text} {folder : FolderPath}
    (hnames : s.lib.topFolderNames.Nodup) (hlength : 2 ≤ folder.length)
    (hok : s.deleteFolder P folder = (.ok (), s')) :
    s'.lib.tops = s.lib.tops.map (·.without folder) := by
  cases hloc : s.lib.locate folder with
  | error e =>
      simp only [deleteFolder, hloc] at hok
      cases hok
  | ok place =>
      obtain ⟨idx, rel⟩ := place
      obtain ⟨t, ht, rfl⟩ := locate_ok hloc
      have hroot : ¬ rel.isEmpty := fun hempty => by
        obtain rfl := List.isEmpty_iff.mp hempty
        simp at hlength
      simp only [deleteFolder, hloc, if_neg hroot] at hok
      split at hok
      · cases hok
      · have htops := congrArg (fun r => r.2.lib.tops) hok
        exact htops.symm.trans (tops_modify hnames ht (t.without_own rel).symm)

end Store

/-! ## The listings -/

theorem listSessions_without {lib lib' : SessionLibrary} {folder : FolderPath}
    (h : lib'.tops = lib.tops.map (·.without folder)) (lower : String → String) :
    lib'.listSessions lower =
      (lib.listSessions lower).filter fun x => ¬ folder <+: x.folder := by
  rw [SessionLibrary.listSessions, SessionLibrary.listSessions, filter_insertionSort, h,
    List.flatMap_map, List.filter_flatMap]
  simp only [TopFolder.sessions_without]

/-- A folder below a top-level one has none for a descendant. -/
theorem not_prefix_top {folder : FolderPath} (hlength : 2 ≤ folder.length) (name : String) :
    ¬ folder <+: [name] := fun h => by
  have hle := h.length_le
  simp at hle
  omega

theorem listFolders_without {lib lib' : SessionLibrary} {folder : FolderPath}
    (hlength : 2 ≤ folder.length) (h : lib'.tops = lib.tops.map (·.without folder)) :
    lib'.listFolders = lib.listFolders.filter fun f => ¬ folder <+: f := by
  rw [SessionLibrary.listFolders, SessionLibrary.listFolders, h, List.flatMap_map,
    List.filter_flatMap]
  refine List.flatMap_congr fun t _ => ?_
  rw [List.filter_cons_of_pos (by simpa using not_prefix_top hlength t.name), List.filter_map]
  rfl

/-! ## The tree -/

section Tree

variable {toLowercase : String → String} {specs : List SessionSpec} {folders : List FolderPath}
  {p q : FolderPath}

/-- The tree of what has not `p` for a prefix. -/
def treeWithout (toLowercase : String → String) (specs : List SessionSpec)
    (folders : List FolderPath) (p : FolderPath) : FolderNode :=
  buildFolderTree toLowercase (specs.filter fun x => ¬ p <+: x.folder)
    (folders.filter fun f => ¬ p <+: f)

theorem find_treeWithout_within (hp : p ≠ []) (hq : p <+: q) :
    (treeWithout toLowercase specs folders p).find q = none := by
  rw [treeWithout, find_buildFolderTree, if_neg]
  rintro (rfl | ⟨x, hx, hqx⟩ | ⟨f, hf, hqf⟩)
  · exact hp (List.prefix_nil.mp hq)
  · exact absurd (hq.trans hqx) (by simpa using (List.mem_filter.mp hx).2)
  · exact absurd (hq.trans hqf) (by simpa using (List.mem_filter.mp hf).2)

theorem sessionsIn_without (hq : ¬ p <+: q) :
    sessionsIn (specs.filter fun x => ¬ p <+: x.folder) q = sessionsIn specs q := by
  rw [sessionsIn, sessionsIn, List.filter_filter]
  refine congrArg _ (List.filter_congr fun x _ => ?_)
  by_cases hx : x.folder = q
  · simp [hx, hq]
  · simp [hx]

/-- A node that is left has the sessions it had. -/
theorem find_of_find_treeWithout (hp : p ≠ []) {items : List (SessionId × String)}
    (h : (treeWithout toLowercase specs folders p).find q = some items) :
    (buildFolderTree toLowercase specs folders).find q = some items := by
  have hq : ¬ p <+: q := fun hq => by
    rw [find_treeWithout_within hp hq] at h
    cases h
  rw [treeWithout, find_buildFolderTree, sessionsIn_without hq] at h
  split at h
  · rename_i hleft
    rw [find_buildFolderTree, if_pos, h]
    exact hleft.imp_right fun hleft => hleft.imp
      (fun ⟨x, hx, hqx⟩ => ⟨x, List.mem_of_mem_filter hx, hqx⟩)
      fun ⟨f, hf, hqf⟩ => ⟨f, List.mem_of_mem_filter hf, hqf⟩
  · cases h

/-- What a path is above is left, or the path is above `p` too. -/
theorem mem_without_or {f : FolderPath} (hqf : q <+: f) (hq : ¬ p <+: q) :
    ¬ p <+: f ∨ q <+: p := by
  by_cases hp : p <+: f
  · exact Or.inr ((List.prefix_or_prefix_of_prefix hqf hp).resolve_right hq)
  · exact Or.inl hp

/-- A node that is gone was within `p`, or above it and without sessions. -/
theorem find_treeWithout_or {items : List (SessionId × String)}
    (h : (buildFolderTree toLowercase specs folders).find q = some items) (hq : ¬ p <+: q) :
    (treeWithout toLowercase specs folders p).find q = some items ∨ (q <+: p ∧ items = []) := by
  rw [find_buildFolderTree] at h
  split at h
  · rename_i hold
    obtain rfl := Option.some.inj h
    rw [treeWithout, find_buildFolderTree, sessionsIn_without hq]
    split
    · exact Or.inl rfl
    · rename_i hgone
      obtain ⟨hroot, hspecs, hfolders⟩ := not_or.mp hgone |>.imp_right not_or.mp
      refine Or.inr ⟨?_, ?_⟩
      · rcases hold with hnil | ⟨x, hx, hqx⟩ | ⟨f, hf, hqf⟩
        · exact absurd hnil hroot
        · refine (mem_without_or hqx hq).resolve_left fun hpx => hspecs ⟨x, ?_, hqx⟩
          exact List.mem_filter.mpr ⟨hx, decide_eq_true hpx⟩
        · refine (mem_without_or hqf hq).resolve_left fun hpf => hfolders ⟨f, ?_, hqf⟩
          exact List.mem_filter.mpr ⟨hf, decide_eq_true hpf⟩
      · have hnone : sessionsIn specs q = [] := by
          rw [sessionsIn, List.map_eq_nil_iff, List.filter_eq_nil_iff]
          intro x hx hxq
          obtain rfl : x.folder = q := of_decide_eq_true hxq
          exact hspecs ⟨x, List.mem_filter.mpr ⟨hx, decide_eq_true hq⟩, List.prefix_refl _⟩
        rw [hnone]
        rfl
  · cases h

end Tree

/-! ## The deletion -/

/-- A deletion that goes through takes from both listings what has the folder
for a prefix, and nothing else, a folder of a longer name beside it included;
and from the tree the nodes at the folder and below it, and nodes above it that
had no sessions. -/
theorem deleteFolder_removes_subtree {Text : Type} (P : Platform Text)
    (toLowercase : String → String) (s s' : Store Text) (folder : FolderPath)
    (hnames : s.lib.topFolderNames.Nodup) (hlength : 2 ≤ folder.length)
    (hok : s.deleteFolder P folder = (.ok (), s')) :
    (s'.lib.listSessions toLowercase =
      (s.lib.listSessions toLowercase).filter fun x => ¬ folder <+: x.folder) ∧
    (s'.lib.listFolders = s.lib.listFolders.filter fun f => ¬ folder <+: f) ∧
    (∀ init last other rest, folder = init ++ [last] → other ≠ last →
      (∀ x ∈ s.lib.listSessions toLowercase, x.folder = init ++ other :: rest →
        x ∈ s'.lib.listSessions toLowercase) ∧
      (init ++ other :: rest ∈ s.lib.listFolders → init ++ other :: rest ∈ s'.lib.listFolders)) ∧
    let tree := buildFolderTree toLowercase (s.lib.listSessions toLowercase) s.lib.listFolders
    let tree' := buildFolderTree toLowercase (s'.lib.listSessions toLowercase) s'.lib.listFolders
    (∀ q, folder <+: q → tree'.find q = none) ∧
      (∀ q items, tree'.find q = some items → tree.find q = some items) ∧
      ∀ q items, tree.find q = some items → ¬ folder <+: q →
        tree'.find q = some items ∨ (q <+: folder ∧ items = []) := by
  have htops := Store.deleteFolder_ok P hnames hlength hok
  have hsessions := listSessions_without htops toLowercase
  have hfolders := listFolders_without hlength htops
  have hne : folder ≠ [] := by
    rintro rfl
    simp at hlength
  refine ⟨hsessions, hfolders, ?_, ?_⟩
  · rintro init last other rest rfl hother
    have hnot : ¬ init ++ [last] <+: init ++ other :: rest := by
      rw [List.prefix_append_right_inj, List.cons_prefix_cons]
      exact fun h => hother h.1.symm
    refine ⟨fun x hx hxf => ?_, fun hmem => ?_⟩
    · rw [hsessions]
      exact List.mem_filter.mpr ⟨hx, decide_eq_true (hxf ▸ hnot)⟩
    · rw [hfolders]
      exact List.mem_filter.mpr ⟨hmem, decide_eq_true hnot⟩
  · rw [hsessions, hfolders]
    exact ⟨fun q hq => find_treeWithout_within hne hq,
      fun q items h => find_of_find_treeWithout hne h, fun q items h hq => find_treeWithout_or h hq⟩

/-- `Work/web` is deleted and `Work/webapp` stays. -/
theorem deleteFolder_removes_subtree_sample :
    let s := Store.sample [] [Store.sampleSession ["web"], Store.sampleSession ["webapp"]]
    (s.deleteFolder .plain ["Work", "web"]).2.lib.listSessions id =
      (s.lib.listSessions id).filter fun x => ¬ ["Work", "web"] <+: x.folder :=
  (deleteFolder_removes_subtree .plain id _ _ ["Work", "web"] (by decide) (by decide) rfl).1

end PolyTerm.Saved
