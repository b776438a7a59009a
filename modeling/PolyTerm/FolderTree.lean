import Mathlib.Data.String.Basic
import PolyTerm.PathTree
import PolyTerm.SavedSession
import PolyTerm.StableSort

/-!
# The folder tree

The session panel arranges the sessions under their folders. The tree grows by
one descent for each listed folder and for each session, and each node's
sessions are sorted in the end. `find_buildFolderTree` is the tree read off the
two lists; the root is there even when both are empty.
-/

namespace PolyTerm.Saved

open PathTree StableSort

/-- Subfolders by name, and the sessions directly in a folder. -/
abbrev FolderNode := Node String (SessionId × String)

/-- Descend along a folder, creating the nodes that are missing, and change the
sessions of the node it ends at. -/
def ensurePath (node : FolderNode) (segments : FolderPath)
    (f : List (SessionId × String) → List (SessionId × String)) : FolderNode :=
  node.modifyAt f segments

/-- What is shown of a session. -/
def SessionSpec.item (spec : SessionSpec) : SessionId × String := (spec.id, spec.name)

/-- The key that a folder's sessions are sorted by. -/
def itemKey (toLowercase : String → String) (item : SessionId × String) : String :=
  toLowercase item.2

def sortNode (toLowercase : String → String) (node : FolderNode) : FolderNode :=
  node.mapValues (sortByKey (itemKey toLowercase))

def buildFolderTree (toLowercase : String → String) (specs : List SessionSpec)
    (folders : List FolderPath) : FolderNode :=
  let root := folders.foldl (fun root folder => ensurePath root folder id) .empty
  let root := specs.foldl (fun root spec => ensurePath root spec.folder (· ++ [spec.item])) root
  sortNode toLowercase root

variable {toLowercase : String → String} {specs : List SessionSpec} {folders : List FolderPath}

/-! ## The tree as a list of descents -/

/-- The descents, of the folders first. -/
def descents (specs : List SessionSpec) (folders : List FolderPath) :
    List (FolderPath × List (SessionId × String)) :=
  folders.map (fun folder => (folder, [])) ++ specs.map fun spec => (spec.folder, [spec.item])

theorem buildFolderTree_eq :
    buildFolderTree toLowercase specs folders =
      sortNode toLowercase (Node.insertAll (descents specs folders) .empty) := by
  have hid : (fun values : List (SessionId × String) => values ++ []) = id :=
    funext List.append_nil
  simp only [buildFolderTree, descents, Node.insertAll, List.foldl_append, List.foldl_map, hid,
    ensurePath]

theorem descents_above {p : FolderPath} : (∃ e ∈ descents specs folders, p <+: e.1) ↔
    (∃ spec ∈ specs, p <+: spec.folder) ∨ ∃ folder ∈ folders, p <+: folder := by
  constructor
  · rintro ⟨e, he, hp⟩
    rcases List.mem_append.mp he with he | he
    · obtain ⟨folder, hfolder, rfl⟩ := List.mem_map.mp he
      exact Or.inr ⟨folder, hfolder, hp⟩
    · obtain ⟨spec, hspec, rfl⟩ := List.mem_map.mp he
      exact Or.inl ⟨spec, hspec, hp⟩
  · rintro (⟨spec, hspec, hp⟩ | ⟨folder, hfolder, hp⟩)
    · exact ⟨_, List.mem_append_right _ (List.mem_map.mpr ⟨spec, hspec, rfl⟩), hp⟩
    · exact ⟨_, List.mem_append_left _ (List.mem_map.mpr ⟨folder, hfolder, rfl⟩), hp⟩

/-- The sessions of a folder, in the order of the list. -/
def sessionsIn (specs : List SessionSpec) (p : FolderPath) : List (SessionId × String) :=
  (specs.filter fun spec => spec.folder = p).map SessionSpec.item

theorem descents_values (specs : List SessionSpec) (folders : List FolderPath) (p : FolderPath) :
    ((descents specs folders).filter fun e => e.1 = p).flatMap Prod.snd = sessionsIn specs p := by
  have hfolders : ((folders.map fun folder =>
      (folder, ([] : List (SessionId × String)))).filter fun e => e.1 = p).flatMap Prod.snd = [] :=
    List.flatMap_eq_nil_iff.mpr fun e he => by
      obtain ⟨folder, -, rfl⟩ := List.mem_map.mp (List.mem_of_mem_filter he)
      rfl
  rw [descents, List.filter_append, List.flatMap_append, hfolders, List.nil_append, sessionsIn,
    List.filter_map, List.flatMap_map]
  exact List.map_eq_flatMap.symm

/-- The tree read off the two lists. -/
theorem find_buildFolderTree (p : FolderPath) :
    (buildFolderTree toLowercase specs folders).find p =
      if p = [] ∨ (∃ spec ∈ specs, p <+: spec.folder) ∨ ∃ folder ∈ folders, p <+: folder then
        some (sortByKey (itemKey toLowercase) (sessionsIn specs p))
      else none := by
  rw [buildFolderTree_eq, sortNode, Node.find_mapValues, Node.find_insertAll, descents_values,
    Node.find_empty]
  by_cases hp : p = []
  · simp [hp]
  · simp only [hp, if_false, Option.isSome_none, Bool.false_eq_true, false_or, Option.getD_none,
      List.nil_append, descents_above]
    split <;> rfl

theorem buildFolderTree_ascending : (buildFolderTree toLowercase specs folders).Ascending := by
  rw [buildFolderTree_eq]
  exact (Node.ascending_empty.insertAll _).mapValues _

theorem all_buildFolderTree :
    (buildFolderTree toLowercase specs folders).all.Perm (specs.map SessionSpec.item) := by
  have hvalues : (descents specs folders).flatMap Prod.snd = specs.map SessionSpec.item := by
    have hfolders : (folders.map fun folder =>
        (folder, ([] : List (SessionId × String)))).flatMap Prod.snd = [] := by simp
    rw [descents, List.flatMap_append, hfolders, List.nil_append, List.flatMap_map]
    exact List.map_eq_flatMap.symm
  rw [buildFolderTree_eq, sortNode]
  refine (Node.all_mapValues (fun values => (stablySorted_sortByKey _ values).perm) _).trans ?_
  refine (Node.all_insertAll _ _).trans ?_
  rw [hvalues]
  simp [Node.empty, Node.all, Children.all]

/-! ## Everything once -/

/-- The tree has a node at its root, at every folder of a session and every
listed folder, and above these; a node has the sessions of its folder, stably
sorted by lower-cased name; and all of it has as many as there are. -/
theorem folder_tree_shows (toLowercase : String → String) (specs : List SessionSpec)
    (folders : List FolderPath) :
    (∀ p, ((buildFolderTree toLowercase specs folders).find p).isSome ↔
      p = [] ∨ (∃ spec ∈ specs, p <+: spec.folder) ∨ ∃ folder ∈ folders, p <+: folder) ∧
    (∀ p sessions, (buildFolderTree toLowercase specs folders).find p = some sessions →
      StablySorted (itemKey toLowercase) (sessionsIn specs p) sessions) ∧
    (buildFolderTree toLowercase specs folders).all.length = specs.length := by
  refine ⟨fun p => ?_, fun p sessions h => ?_, ?_⟩
  · rw [find_buildFolderTree]
    split
    · rename_i hp
      exact iff_of_true rfl hp
    · rename_i hp
      exact iff_of_false Bool.false_ne_true hp
  · rw [find_buildFolderTree] at h
    split at h
    · obtain rfl := Option.some.inj h
      exact stablySorted_sortByKey _ _
    · cases h
  · rw [all_buildFolderTree.length_eq, List.length_map]

/-- The root is there although nothing is. -/
theorem root_without_folders :
    ¬∀ (toLowercase : String → String) (specs : List SessionSpec) (folders : List FolderPath)
        (p : FolderPath),
      ((buildFolderTree toLowercase specs folders).find p).isSome ↔
        (∃ spec ∈ specs, p <+: spec.folder) ∨ ∃ folder ∈ folders, p <+: folder := by
  intro h
  obtain ⟨spec, hspec, -⟩ | ⟨folder, hfolder, -⟩ := (h id [] [] []).mp rfl
  · cases hspec
  · cases hfolder

end PolyTerm.Saved
