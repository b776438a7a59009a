import Mathlib.Data.String.Basic
import PolyTerm.JoinedOrder
import PolyTerm.SessionMap

/-!
# The order of the listing

`list_sessions` compares folders by their segments joined with `U+001F`. Where
no segment has a character at or below it, that is the order of the segments,
so that the listing walks the tree: each folder's subtree is one block of it,
the folder's own sessions first (`listSessions_tree_order`).
-/

namespace PolyTerm.Saved

open JoinedOrder

/-- No character at or below the separator. -/
def CleanSegment (segment : String) : Prop := ∀ c ∈ segment.toList, '\u001f' < c

instance : DecidablePred CleanSegment := fun segment =>
  List.decidableBAll (fun c => '\u001f' < c) segment.toList

def CleanFolder (folder : FolderPath) : Prop := ∀ segment ∈ folder, CleanSegment segment

instance : DecidablePred CleanFolder := fun folder => List.decidableBAll CleanSegment folder

/-- So are the names of the top-level folders and the folders of all sessions. -/
structure SessionLibrary.Clean (lib : SessionLibrary) : Prop where
  names : ∀ t ∈ lib.tops, CleanSegment t.name
  folders : ∀ t ∈ lib.tops, ∀ spec ∈ t.data.sessions, CleanFolder spec.folder

/-! ## Folders -/

theorem toList_folderKey (folder : FolderPath) :
    (folderKey folder).toList = ['\u001f'].intercalate (folder.map String.toList) :=
  String.toList_intercalate

theorem CleanFolder.above {folder : FolderPath} (h : CleanFolder folder) :
    Above '\u001f' (folder.map String.toList) := fun word hword c hc => by
  obtain ⟨segment, hsegment, rfl⟩ := List.mem_map.mp hword
  exact h segment hsegment c hc

theorem map_toList_lt {a b : FolderPath} : a.map String.toList < b.map String.toList ↔ a < b := by
  have hmap : ∀ {a b : FolderPath}, a < b → a.map String.toList < b.map String.toList :=
    List.map_lt fun _ _ => String.lt_iff_toList_lt.mp
  refine ⟨fun h => ?_, hmap⟩
  rcases lt_trichotomy a b with hlt | rfl | hgt
  · exact hlt
  · exact absurd h (lt_irrefl _)
  · exact absurd (hmap hgt) (lt_asymm h)

/-- The keys of clean folders are ordered as the folders are. -/
theorem folderKey_lt {a b : FolderPath} (ha : a ≠ []) (hb : b ≠ []) (hac : CleanFolder a)
    (hbc : CleanFolder b) : folderKey a < folderKey b ↔ a < b := by
  rw [String.lt_iff_toList_lt, toList_folderKey, toList_folderKey,
    intercalate_lt_iff (by simpa using ha) (by simpa using hb) hac.above hbc.above, map_toList_lt]

/-! ## The listing -/

namespace SessionLibrary

theorem listOrder_iff {lower : String → String} {a b : SessionSpec} :
    listOrder lower a b ↔ folderKey a.folder < folderKey b.folder ∨
      folderKey a.folder = folderKey b.folder ∧ lower a.name ≤ lower b.name := by
  rw [listOrder, Ordering.isLE_then_iff_or, compare_lt_iff_lt, compare_eq_iff_eq,
    Ordering.isLE_iff_ne_gt]
  exact or_congr_right (and_congr_right fun _ => compare_le_iff_le)

instance (lower : String → String) : Std.Total (listOrder lower) where
  total a b := by
    rw [listOrder_iff, listOrder_iff]
    rcases lt_trichotomy (folderKey a.folder) (folderKey b.folder) with hlt | heq | hgt
    · exact Or.inl (Or.inl hlt)
    · exact (le_total (lower a.name) (lower b.name)).imp (fun h => Or.inr ⟨heq, h⟩)
        fun h => Or.inr ⟨heq.symm, h⟩
    · exact Or.inr (Or.inl hgt)

instance (lower : String → String) : IsTrans SessionSpec (listOrder lower) where
  trans a b c hab hbc := by
    rw [listOrder_iff] at *
    rcases hab with hab | ⟨hab, hname⟩
    · rcases hbc with hbc | ⟨hbc, -⟩
      · exact Or.inl (hab.trans hbc)
      · exact Or.inl (hbc ▸ hab)
    · rcases hbc with hbc | ⟨hbc, hname'⟩
      · exact Or.inl (hab ▸ hbc)
      · exact Or.inr ⟨hab.trans hbc, hname.trans hname'⟩

theorem Clean.folder {lib : SessionLibrary} (h : lib.Clean) {x : SessionSpec} (hx : x ∈ lib.view) :
    x.folder ≠ [] ∧ CleanFolder x.folder := by
  obtain ⟨t, ht, spec, hspec, rfl⟩ := mem_view.mp hx
  exact ⟨List.cons_ne_nil _ _, List.forall_mem_cons.mpr ⟨h.names t ht, h.folders t ht spec hspec⟩⟩

/-- Folder before name, for sessions of a clean library. -/
theorem Clean.le_of_listOrder {lib : SessionLibrary} (h : lib.Clean) {lower : String → String}
    {a b : SessionSpec} (ha : a ∈ lib.view) (hb : b ∈ lib.view) (hab : listOrder lower a b) :
    a.folder ≤ b.folder ∧ (a.folder = b.folder → lower a.name ≤ lower b.name) := by
  have hlt := folderKey_lt (h.folder ha).1 (h.folder hb).1 (h.folder ha).2 (h.folder hb).2
  have hgt := folderKey_lt (h.folder hb).1 (h.folder ha).1 (h.folder hb).2 (h.folder ha).2
  rcases listOrder_iff.mp hab with hkey | ⟨hkey, hname⟩
  · exact ⟨(hlt.mp hkey).le, fun heq => absurd (heq ▸ hkey) (lt_irrefl _)⟩
  · exact ⟨not_lt.mp fun hlarger => (hgt.mpr hlarger).ne hkey.symm, fun _ => hname⟩

/-- The listing of a clean library has all its sessions, ordered by their
folders segment by segment and then by name, so that every folder's subtree is
one block that starts with the folder's own sessions. -/
theorem listSessions_tree_order (lower : String → String) (lib : SessionLibrary)
    (hclean : lib.Clean) :
    (lib.listSessions lower).Perm (lib.tops.flatMap TopFolder.sessions) ∧
    ((lib.listSessions lower).Pairwise fun a b =>
      a.folder ≤ b.folder ∧ (a.folder = b.folder → lower a.name ≤ lower b.name)) ∧
    ∀ p : FolderPath, ∃ pre own below post,
      lib.listSessions lower = pre ++ own ++ below ++ post ∧
        (∀ x ∈ own, x.folder = p) ∧ (∀ x ∈ below, p <+: x.folder ∧ x.folder ≠ p) ∧
        ∀ x ∈ pre ++ post, ¬ p <+: x.folder := by
  have hperm := lib.listSessions_perm lower
  have hsorted : (lib.listSessions lower).Pairwise fun a b =>
      a.folder ≤ b.folder ∧ (a.folder = b.folder → lower a.name ≤ lower b.name) :=
    (List.pairwise_insertionSort (listOrder lower) _).imp_of_mem fun ha hb hab =>
      hclean.le_of_listOrder (hperm.mem_iff.mp ha) (hperm.mem_iff.mp hb) hab
  exact ⟨hperm, hsorted, exists_block (hsorted.imp And.left)⟩

/-- Two files, of which the second sorts between the folders of the first. -/
theorem listSessions_tree_order_sample :
    ((Store.sample [Store.sampleSession ["web"], Store.sampleSession []]
        [Store.sampleSession ["dev"]]).lib.listSessions id).Pairwise fun a b =>
      a.folder ≤ b.folder ∧ (a.folder = b.folder → a.name ≤ b.name) :=
  (listSessions_tree_order id _ ⟨by decide, by decide⟩).2.1

end SessionLibrary

end PolyTerm.Saved
