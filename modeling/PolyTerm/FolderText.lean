import Mathlib.Data.Set.Operations
import PolyTerm.SessionEditor

/-!
# The folder field

A folder is edited as one text. Reading the text takes it apart at the slashes,
so a slash between two texts reads as the one folder inside the other
(`parseFolder_slash`), and what is read has segments that the field shows as
they are. Those paths come back from their text, and no others are ever read:
what is read is a normal form (`parseFolder_normal_form`).
-/

namespace PolyTerm.Saved

/-! ## Segments -/

/-- A segment that the form shows and reads back. -/
def Plain (segment : String) : Prop := Required segment ∧ '/' ∉ segment.toList

theorem not_mem_of_mem_splitOn {c : Char} {cs segment : List Char} (h : segment ∈ cs.splitOn c) :
    c ∉ segment := by
  induction cs generalizing segment with
  | nil =>
      rw [List.splitOn_nil] at h
      rw [List.mem_singleton.mp h]
      exact List.not_mem_nil
  | cons d ds ih =>
      rw [List.splitOn_cons_eq_if_modifyHead] at h
      split at h
      case isTrue =>
        rcases List.mem_cons.mp h with rfl | h
        · exact List.not_mem_nil
        · exact ih h
      case isFalse hne =>
        obtain ⟨first, rest, hsplit⟩ := List.exists_cons_of_ne_nil (List.splitOn_ne_nil c ds)
        rw [hsplit, List.modifyHead_cons] at h
        rcases List.mem_cons.mp h with rfl | h
        · have hfirst : c ∉ first := ih (hsplit ▸ List.mem_cons_self)
          simp only [List.mem_cons, not_or]
          exact ⟨fun hcd => hne (by simp [hcd]), hfirst⟩
        · exact ih (hsplit ▸ List.mem_cons_of_mem _ h)

theorem mem_of_mem_trim {s : String} {c : Char} (h : c ∈ trim s) : c ∈ s.toList :=
  (List.dropWhile_sublist _).subset ((trimEnd_isPrefix _).subset h)

/-- What a folder field reads as has plain segments. -/
theorem plain_of_parseFolder {text segment : String} (h : segment ∈ parseFolder text) :
    Plain segment := by
  obtain ⟨raw, hraw, hsome⟩ := List.mem_filterMap.mp h
  refine ⟨nonBlank_eq_some hsome, fun hslash => not_mem_of_mem_splitOn hraw ?_⟩
  unfold nonBlank at hsome
  split at hsome
  · cases hsome
  · obtain rfl := Option.some.inj hsome
    rw [String.toList_ofList] at hslash
    simpa using mem_of_mem_trim hslash

/-- A folder with plain segments comes back from its text. -/
theorem parseFolder_folderToString {folder : FolderPath} (h : ∀ segment ∈ folder, Plain segment) :
    parseFolder (folderToString folder) = folder := by
  by_cases hroot : folder = []
  · subst hroot
    decide
  · have hsplit : (['/'].intercalate (folder.map String.toList)).splitOn '/' =
        folder.map String.toList := by
      refine List.splitOn_intercalate '/' (fun segment hsegment => ?_) (by simpa using hroot)
      obtain ⟨s, hs, rfl⟩ := List.mem_map.mp hsegment
      exact (h s hs).2
    rw [parseFolder, folderToString, String.toList_ofList, hsplit, List.filterMap_map]
    refine (List.filterMap_congr fun s hs => ?_).trans List.filterMap_some
    rw [Function.comp_apply, String.ofList_toList]
    exact nonBlank_trimmed (h s hs).1.1 (h s hs).1.2

/-- What is between two slashes reads on its own. -/
theorem parseFolder_slash (a b : String) :
    parseFolder (a ++ "/" ++ b) = parseFolder a ++ parseFolder b := by
  have htext : (a ++ "/" ++ b).toList = a.toList ++ '/' :: b.toList := by simp
  rw [parseFolder, htext, List.splitOn_append_cons_self, List.filterMap_append]
  rfl

example : parseFolder " infra //edge/ " = ["infra", "edge"] := by decide

/-! ## The normal form -/

theorem plain_iff {segment : String} :
    Plain segment ↔ segment ≠ "" ∧ '/' ∉ segment.toList ∧
      (∀ c ∈ segment.toList.head?, isWhitespace c = false) ∧
        ∀ c ∈ segment.toList.getLast?, isWhitespace c = false := by
  rw [Plain, Required, trimmed_iff]
  tauto

/-- The paths that are read from some text. -/
theorem range_parseFolder :
    Set.range parseFolder = {path | ∀ segment ∈ path, Plain segment} := by
  ext path
  constructor
  · rintro ⟨text, rfl⟩ segment hsegment
    exact plain_of_parseFolder hsegment
  · intro hplain
    exact ⟨folderToString path, parseFolder_folderToString hplain⟩

theorem parseFolder_normal_form :
    (∀ text, parseFolder (folderToString (parseFolder text)) = parseFolder text) ∧
    Set.range parseFolder =
      {path | ∀ segment ∈ path, segment ≠ "" ∧ '/' ∉ segment.toList ∧
        (∀ c ∈ segment.toList.head?, isWhitespace c = false) ∧
          ∀ c ∈ segment.toList.getLast?, isWhitespace c = false} ∧
    (∀ path ∈ Set.range parseFolder, parseFolder (folderToString path) = path) ∧
    ∀ a b, parseFolder (a ++ "/" ++ b) = parseFolder a ++ parseFolder b := by
  have hback : ∀ path ∈ Set.range parseFolder, parseFolder (folderToString path) = path := by
    intro path hpath
    rw [range_parseFolder] at hpath
    exact parseFolder_folderToString hpath
  refine ⟨fun text => hback _ ⟨text, rfl⟩, ?_, hback, parseFolder_slash⟩
  simp only [range_parseFolder, plain_iff]

end PolyTerm.Saved
