import PolyTerm.Keyed
import PolyTerm.LibrarySteps

/-!
# The library as a map of sessions

Read through `list_sessions`, the files are one collection of sessions with
absolute folders, keyed by the session's id. An insert is a `put` on that
collection and a delete an `erase`, however the sessions are spread over the
files and whatever ids they share; where ids are unique the library is a map
(`session_operations`).
-/

namespace PolyTerm.Saved

open Writes

variable {Text : Type}

/-! ## The view -/

def SessionSpec.key (s : SessionSpec) : SessionId := s.id

namespace SessionLibrary

/-- The sessions of all files, with absolute folders. -/
def view (lib : SessionLibrary) : List SessionSpec := lib.tops.flatMap TopFolder.sessions

theorem listSessions_perm (lib : SessionLibrary) (lower : String → String) :
    (lib.listSessions lower).Perm lib.view := List.perm_insertionSort _ _

theorem find_sessions (t : TopFolder) (id : SessionId) :
    t.sessions.find? (fun s => s.key = id) =
      (t.data.sessions.find? fun s => s.id = id).map fun spec =>
        { spec with folder := prepend t.name spec.folder } := by
  simp only [TopFolder.sessions, List.find?_map]
  rfl

theorem getSession_eq (lib : SessionLibrary) (id : SessionId) :
    lib.getSession id = Keyed.lookup SessionSpec.key id lib.view := by
  simp only [getSession, Keyed.lookup, view, List.find?_flatMap, find_sessions]

theorem getSession_mem {lib : SessionLibrary} {id : SessionId} {x : SessionSpec}
    (h : lib.getSession id = some x) : x ∈ lib.view ∧ x.id = id := by
  rw [getSession_eq] at h
  exact Keyed.lookup_mem h

theorem mem_view {lib : SessionLibrary} {x : SessionSpec} :
    x ∈ lib.view ↔ ∃ t ∈ lib.tops, ∃ s ∈ t.data.sessions,
      { s with folder := t.name :: s.folder } = x := by
  simp [view, TopFolder.sessions, prepend]

/-! ## What the calls do to it -/

theorem sessions_retain (t : TopFolder) (id : SessionId) :
    (t.retain id).sessions = Keyed.erase SessionSpec.key id t.sessions := by
  simp only [TopFolder.sessions, TopFolder.retain, Keyed.erase, List.filter_map]
  rfl

theorem view_takeOut (lib : SessionLibrary) (id : SessionId) :
    (lib.takeOut id).1.view = Keyed.erase SessionSpec.key id lib.view := by
  simp only [view, takeOut, Keyed.erase, List.filter_flatMap, List.flatMap_map]
  exact congrArg (lib.tops.flatMap ·) (funext fun t => sessions_retain t id)

/-- A session added to one file is added to the view. -/
theorem view_push {lib : SessionLibrary} {idx : Nat} {t : TopFolder} {stored : SessionSpec}
    (ht : lib.tops[idx]? = some t) :
    (lib.modify idx (·.push stored)).view.Perm
      ({ stored with folder := t.name :: stored.folder } :: lib.view) := by
  obtain ⟨hlt, rfl⟩ := List.getElem?_eq_some_iff.mp ht
  have hpush : ∀ u : TopFolder, (u.push stored).sessions =
      u.sessions ++ [{ stored with folder := u.name :: stored.folder }] := by
    intro u
    simp [TopFolder.sessions, TopFolder.push, prepend]
  have hsplit : lib.tops = lib.tops.take idx ++ lib.tops[idx] :: lib.tops.drop (idx + 1) := by
    rw [List.getElem_cons_drop, List.take_append_drop]
  have hview : lib.view = (lib.tops.take idx).flatMap TopFolder.sessions ++
      (lib.tops[idx].sessions ++ (lib.tops.drop (idx + 1)).flatMap TopFolder.sessions) := by
    rw [view, ← List.flatMap_cons, ← List.flatMap_append, ← hsplit]
  rw [hview, view, modify, List.modify_eq_take_cons_drop hlt, List.flatMap_append,
    List.flatMap_cons, hpush, List.append_assoc, List.singleton_append]
  exact (List.perm_middle.append_left _).trans List.perm_middle

/-- An insert puts the session with its absolute folder. -/
theorem view_upserted {lib : SessionLibrary} {spec : SessionSpec} {idx : Nat} {rel : FolderPath}
    {t : TopFolder} (h : Store.Accepts lib spec idx rel t) :
    (lib.upserted { spec with folder := rel } idx).view.Perm
      (Keyed.put SessionSpec.key spec lib.view) := by
  have ht : (lib.takeOut spec.id).1.tops[idx]? = some (t.retain spec.id) := by
    simp [takeOut, h.top]
  have hpush : ((lib.takeOut spec.id).1.modify idx (·.push { spec with folder := rel })).view.Perm
      ({ spec with folder := (t.retain spec.id).name :: rel } :: (lib.takeOut spec.id).1.view) :=
    view_push ht
  rw [view_takeOut] at hpush
  have habs : ({ spec with folder := (t.retain spec.id).name :: rel } : SessionSpec) = spec := by
    have hfolder : (t.retain spec.id).name :: rel = spec.folder := h.folder.symm
    rw [hfolder]
  rw [habs] at hpush
  exact hpush

end SessionLibrary

/-! ## Session operations -/

namespace Store

open SessionLibrary Keyed

variable (P : Platform Text)

/-- An insert that succeeds has passed its checks. -/
theorem accepts_of_ok {s : Store Text} {spec : SessionSpec}
    (hok : (s.upsertSession P spec).1 = .ok ()) :
    ∃ idx rel t, Accepts s.lib spec idx rel t ∧
      (s.upsertSession P spec).2.lib = s.lib.upserted { spec with folder := rel } idx := by
  rcases upsertSession_cases P s.lib spec with ⟨e, he⟩ | ⟨idx, rel, t, h⟩
  · have hrefused : s.upsertSession P spec = (.error e, s) := he s.world
    rw [hrefused] at hok
    cases hok
  · refine ⟨idx, rel, t, h, ?_⟩
    rw [upsertSession_of_accepts P h]
    rfl

theorem upsertSession_view {s : Store Text} {spec : SessionSpec}
    (hok : (s.upsertSession P spec).1 = .ok ()) :
    (s.upsertSession P spec).2.lib.view.Perm (put SessionSpec.key spec s.lib.view) := by
  obtain ⟨idx, rel, t, h, hlib⟩ := accepts_of_ok P hok
  rw [hlib]
  exact view_upserted h

theorem deleteSession_view (s : Store Text) (id : SessionId) :
    (s.deleteSession P id).2.lib.view = erase SessionSpec.key id s.lib.view :=
  view_takeOut s.lib id

/-- A file that holds the id, or the one the folder names. -/
def Concerns (lib : SessionLibrary) (spec : SessionSpec) (i : Nat) (t : TopFolder) : Prop :=
  lib.tops[i]? = some t ∧
    ((∃ rel, lib.locate spec.folder = .ok (i, rel)) ∨ ∃ x ∈ t.data.sessions, x.id = spec.id)

/-- Every call leaves the paths alone unless it adds or removes a file, so the
writes of a save name the files of the tree before the call. -/
theorem topWrite_of_revised {lib lib' : SessionLibrary} {idxs : List Nat}
    (h : Revised lib lib' idxs) {w : FileId × Entry Text}
    (hw : w ∈ idxs.filterMap fun i => (lib'.tops[i]?).map P.topWrite) :
    ∃ i ∈ idxs, ∃ t t', lib.tops[i]? = some t ∧ lib'.tops[i]? = some t' ∧ w = P.topWrite t' ∧
      w.1 = P.fileOf t.path := by
  obtain ⟨i, hi, hmap⟩ := List.mem_filterMap.mp hw
  obtain ⟨t', ht', rfl⟩ := Option.map_eq_some_iff.mp hmap
  obtain ⟨t, ht, -⟩ := h.saved i hi
  obtain ⟨data, hdata, -⟩ := h.contents i t ht
  obtain rfl := Option.some.inj (hdata.symm.trans ht')
  exact ⟨i, hi, t, _, ht, ht', rfl, rfl⟩

theorem upsertSession_writes {s : Store Text} {spec : SessionSpec}
    (hok : (s.upsertSession P spec).1 = .ok ()) :
    ∃ writes, (s.upsertSession P spec).2.world.log = s.world.log ++ writes ∧
      ∀ w ∈ writes, ∃ i t, Concerns s.lib spec i t ∧ w.1 = P.fileOf t.path := by
  obtain ⟨idx, rel, t, h, -⟩ := accepts_of_ok P hok
  rw [upsertSession_of_accepts P h]
  obtain ⟨done, hpre, hwrote⟩ := save_wrote
    { s with lib := s.lib.upserted { spec with folder := rel } idx }
    ((s.lib.affected spec.id idx).filterMap fun i =>
      ((s.lib.upserted { spec with folder := rel } idx).tops[i]?).map P.topWrite)
  refine ⟨done, hwrote.log, fun w hw => ?_⟩
  have hedit : Revised s.lib (s.lib.upserted { spec with folder := rel } idx)
      (s.lib.affected spec.id idx) := revised_upserted h.top h.writable
  obtain ⟨i, hi, u, -, hu, -, -, hfile⟩ := topWrite_of_revised P hedit (hpre.subset hw)
  refine ⟨i, u, ⟨hu, ?_⟩, hfile⟩
  rcases mem_affected.mp hi with hmem | rfl
  · obtain ⟨v, hv, x, hx, hid⟩ := mem_changed.mp hmem
    obtain rfl := Option.some.inj (hv.symm.trans hu)
    exact .inr ⟨x, hx, hid⟩
  · exact .inl ⟨rel, h.locate⟩

theorem moveSession_view {s : Store Text} {id : SessionId} {folder : FolderPath}
    (hunique : UniqueKeys SessionSpec.key s.lib.view)
    (hok : (s.moveSession P id folder).1 = .ok ()) :
    (s.moveSession P id folder).2.lib.view.Perm
      (s.lib.view.map fun x => if x.id = id then { x with folder := folder } else x) := by
  unfold moveSession at hok ⊢
  cases hget : s.lib.getSession id with
  | none =>
      have habsent := lookup_eq_none.mp ((getSession_eq s.lib id).symm.trans hget)
      have hsame : s.lib.view.map (fun x => if x.id = id then { x with folder := folder } else x) =
          s.lib.view :=
        (List.map_congr_left fun x hx => if_neg (habsent x hx)).trans (List.map_id' _)
      rw [hsame]
  | some x =>
      rw [hget] at hok
      obtain ⟨hx, rfl⟩ := getSession_mem hget
      have hmap := put_perm_map hunique hx (y := { x with folder := folder }) rfl
      refine (upsertSession_view P hok).trans (hmap.trans (List.Perm.of_eq ?_))
      refine List.map_congr_left fun z hz => ?_
      by_cases hid : z.id = x.id
      · have hzx : z = x := List.inj_on_of_nodup_map hunique hz hx hid
        rw [hzx, if_pos rfl, if_pos rfl]
      · rw [if_neg hid, if_neg (by exact hid)]

theorem duplicateSession_ok {s : Store Text} {id fresh : SessionId} {r : Option SessionSpec}
    (hok : (s.duplicateSession P id fresh).1 = .ok r) :
    (s.lib.getSession id = none ∧ r = none ∧ (s.duplicateSession P id fresh).2 = s) ∨
      ∃ x, s.lib.getSession id = some x ∧
        r = some { x with id := fresh, name := x.name ++ " copy" } ∧
        (s.duplicateSession P id fresh).2.lib.view.Perm
          (put SessionSpec.key { x with id := fresh, name := x.name ++ " copy" } s.lib.view) := by
  unfold duplicateSession at hok ⊢
  cases hget : s.lib.getSession id with
  | none =>
      rw [hget] at hok
      exact .inl ⟨rfl, (Except.ok.inj hok).symm, rfl⟩
  | some x =>
      rw [hget] at hok
      have hview : ∀ spec, (s.upsertSession P spec).1 = .ok () →
          (s.upsertSession P spec).2.lib.view.Perm (put SessionSpec.key spec s.lib.view) :=
        fun _ => upsertSession_view P
      specialize hview { x with id := fresh, name := x.name ++ " copy" }
      simp only at hok ⊢
      generalize s.upsertSession P { x with id := fresh, name := x.name ++ " copy" } = result
        at hok hview ⊢
      obtain ⟨r', s'⟩ := result
      cases r' with
      | error e => cases hok
      | ok u =>
          obtain rfl := Except.ok.inj hok
          exact .inr ⟨x, rfl, rfl, hview rfl⟩

/-- The sessions in their listed order. -/
abbrev listed (s : Store Text) : List SessionSpec := s.lib.listSessions P.toLowercase

theorem listed_perm (s : Store Text) : (s.listed P).Perm s.lib.view := listSessions_perm _ _

theorem listed_put {s t : Store Text} {spec : SessionSpec}
    (h : t.lib.view.Perm (put SessionSpec.key spec s.lib.view)) :
    (t.listed P).Perm (put SessionSpec.key spec (s.listed P)) :=
  (t.listed_perm P).trans (h.trans ((erase_perm (s.listed_perm P).symm _).cons _))

/-- Insert, delete, move and duplicate are the operations of a map keyed by
id on what `list_sessions` shows. -/
theorem session_operations (s : Store Text) :
    (∀ spec, (s.upsertSession P spec).1 = .ok () →
      ((s.upsertSession P spec).2.listed P).Perm
          (spec :: (s.listed P).filter fun x => x.id ≠ spec.id) ∧
        (s.upsertSession P spec).2.lib.getSession spec.id = some spec ∧
        ∃ writes, (s.upsertSession P spec).2.world.log = s.world.log ++ writes ∧
          ∀ w ∈ writes, ∃ i t, Concerns s.lib spec i t ∧ w.1 = P.fileOf t.path) ∧
    (UniqueKeys SessionSpec.key (s.listed P) →
      (∀ id, ((s.deleteSession P id).2.listed P).Perm ((s.listed P).filter fun x => x.id ≠ id) ∧
        UniqueKeys SessionSpec.key ((s.deleteSession P id).2.listed P)) ∧
      (∀ id folder, (s.moveSession P id folder).1 = .ok () →
        ((s.moveSession P id folder).2.listed P).Perm
            ((s.listed P).map fun x => if x.id = id then { x with folder := folder } else x) ∧
          UniqueKeys SessionSpec.key ((s.moveSession P id folder).2.listed P)) ∧
      (∀ id fresh r, (∀ x ∈ s.listed P, x.id ≠ fresh) →
        (s.duplicateSession P id fresh).1 = .ok r →
        ((s.lib.getSession id = none ∧ r = none ∧
              (s.duplicateSession P id fresh).2.listed P = s.listed P) ∨
            ∃ x, s.lib.getSession id = some x ∧
              r = some { x with id := fresh, name := x.name ++ " copy" } ∧
              ((s.duplicateSession P id fresh).2.listed P).Perm
                ({ x with id := fresh, name := x.name ++ " copy" } :: s.listed P)) ∧
          UniqueKeys SessionSpec.key ((s.duplicateSession P id fresh).2.listed P)) ∧
      ∀ spec, (s.upsertSession P spec).1 = .ok () →
        UniqueKeys SessionSpec.key ((s.upsertSession P spec).2.listed P)) := by
  refine ⟨fun spec hok => ⟨listed_put P (upsertSession_view P hok), ?_,
    upsertSession_writes P hok⟩, fun hunique => ⟨fun id => ?_, fun id folder hok => ?_,
      fun id fresh r hfresh hok => ?_, fun spec hok => ?_⟩⟩
  · rw [getSession_eq]
    exact lookup_put (upsertSession_view P hok)
  · have hperm : ((s.deleteSession P id).2.listed P).Perm (erase SessionSpec.key id (s.listed P)) :=
      (listed_perm P _).trans
        (deleteSession_view P s id ▸ erase_perm (s.listed_perm P).symm id)
    exact ⟨hperm, (hunique.erase id).perm hperm⟩
  · have hview := moveSession_view P (hunique.perm (s.listed_perm P).symm) hok
    have hperm := (listed_perm P _).trans (hview.trans ((s.listed_perm P).symm.map _))
    refine ⟨hperm, (hunique.map fun x => ?_).perm hperm⟩
    split <;> rfl
  · rcases duplicateSession_ok P hok with ⟨hnone, rfl, hsame⟩ | ⟨x, hget, rfl, hview⟩
    · rw [hsame]
      exact ⟨.inl ⟨hnone, rfl, rfl⟩, hunique⟩
    · have hperm := listed_put P hview
      have hkeep : erase SessionSpec.key fresh (s.listed P) = s.listed P := erase_of_fresh hfresh
      exact ⟨.inr ⟨x, hget, rfl, hperm.trans (List.Perm.of_eq (congrArg (List.cons _) hkeep))⟩,
        (hunique.put _).perm hperm⟩
  · exact (hunique.put spec).perm (listed_put P (upsertSession_view P hok))

/-- Two included files and what they hold. -/
def sample (first second : List SessionSpec) : Store Document where
  lib :=
    { indexPath := sampleDir.file "library.json"
      dir := sampleDir
      tops := [⟨"General", sampleDir.file "sessions.json", ⟨[], first⟩, true, none⟩,
        ⟨"Work", sampleDir.file "work.json", ⟨[], second⟩, true, none⟩] }
  world :=
    { store := fun file =>
        if file.name = "/home/.polyterm/sessions.json" then .file (.sessions ⟨[], first⟩)
        else if file.name = "/home/.polyterm/work.json" then .file (.sessions ⟨[], second⟩)
        else .missing
      fates := []
      log := [] }

def sampleSession (folder : FolderPath) : SessionSpec :=
  ⟨⟨1⟩, "web", folder, .localShell ⟨none, none, []⟩, .prompt⟩

/-- Moved from the second file to the first by an insert. -/
theorem session_operations_sample :
    ((sample [] [sampleSession []]).upsertSession .plain
        (sampleSession ["General"])).2.lib.getSession ⟨1⟩ = some (sampleSession ["General"]) :=
  ((session_operations .plain (sample [] [sampleSession []])).1 (sampleSession ["General"])
    (by decide +kernel)).2.1

end Store

end PolyTerm.Saved
