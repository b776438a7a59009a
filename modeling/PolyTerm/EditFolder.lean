import PolyTerm.FailedCalls
import PolyTerm.FolderText
import PolyTerm.LibraryOpen
import PolyTerm.SessionMap

/-!
# Saving an unchanged form

The form holds a folder as text, with a slash between the segments; the library
takes any trimmed name for a top-level folder, a slash included. Saved from its
form unchanged, a session stays in its folder and file exactly if the name of
its top-level folder has no slash (`edit_keeps_folder_iff`). The other segments
come from forms themselves, so the library only ever holds plain ones.
-/

namespace PolyTerm.Saved

open Runs Writes

variable {Text : Type}

/-! ## What a form gives -/

theorem bind_eq_ok {α β ε : Type} {x : Except ε α} {f : α → Except ε β} {b : β}
    (h : (x >>= f) = .ok b) : ∃ a, x = .ok a ∧ f a = .ok b := by
  cases x with
  | error e => cases h
  | ok a => exact ⟨a, rfl, h⟩

theorem required_of_require {s field t : String} (h : require s field = .ok t) : Required t := by
  unfold require at h
  split at h
  · rename_i hsome
    obtain rfl := Except.ok.inj h
    exact nonBlank_eq_some hsome
  · cases h

namespace SessionEditor

/-- A key path read from a form is not blank. -/
theorem keyPath_of_toSshAuth {e : SessionEditor} {username host keyPath : String}
    {passphrase : Option CredentialRef}
    (h : e.toSshAuth username host = .ok (.publicKey keyPath passphrase)) :
    nonBlank keyPath ≠ none := by
  unfold toSshAuth at h
  split at h
  · cases h
  · cases h
  · cases h
  · obtain ⟨path, hpath, h⟩ := bind_eq_ok h
    obtain ⟨rfl, rfl⟩ := SshAuth.publicKey.inj (Except.ok.inj h)
    have hrequired := required_of_require hpath
    rw [nonBlank_trimmed hrequired.1 hrequired.2]
    exact Option.some_ne_none _

/-- The folder of a form and a filled session. -/
theorem toSpec_ok {e : SessionEditor} {spec : SessionSpec} (h : e.toSpec = .ok spec) :
    Filled spec ∧ spec.folder = parseFolder e.folder := by
  unfold toSpec at h
  split at h
  · cases h
  case h_2 name hname =>
    obtain ⟨kind, hkind, h⟩ := bind_eq_ok h
    obtain rfl := Except.ok.inj h
    refine ⟨⟨nonBlank_eq_some hname, ?_⟩, rfl⟩
    unfold toKind at hkind
    split at hkind
    · obtain rfl := Except.ok.inj hkind
      trivial
    · obtain ⟨port, hport, hkind⟩ := bind_eq_ok hkind
      obtain ⟨baud, -, hkind⟩ := bind_eq_ok hkind
      obtain rfl := Except.ok.inj hkind
      exact required_of_require hport
    · obtain ⟨host, hhost, hkind⟩ := bind_eq_ok hkind
      obtain ⟨username, husername, hkind⟩ := bind_eq_ok hkind
      obtain ⟨auth, hauth, hkind⟩ := bind_eq_ok hkind
      obtain ⟨port, -, hkind⟩ := bind_eq_ok hkind
      obtain rfl := Except.ok.inj hkind
      refine ⟨required_of_require hhost, required_of_require husername, ?_⟩
      cases auth with
      | publicKey keyPath passphrase => exact keyPath_of_toSshAuth hauth
      | _ => trivial
    · obtain ⟨host, hhost, hkind⟩ := bind_eq_ok hkind
      obtain ⟨port, -, hkind⟩ := bind_eq_ok hkind
      obtain ⟨username, husername, hkind⟩ := bind_eq_ok hkind
      obtain ⟨width, -, hkind⟩ := bind_eq_ok hkind
      obtain ⟨height, -, hkind⟩ := bind_eq_ok hkind
      obtain rfl := Except.ok.inj hkind
      refine ⟨required_of_require hhost, required_of_require husername, fun domain hdomain => ?_⟩
      exact (nonBlank_eq_some hdomain).1

end SessionEditor

/-! ## Reached libraries -/

namespace SessionLibrary

/-- What holds of a session wherever it is filed: it can be read from its form,
and so can its folder below the top-level one. -/
def Filed (x : SessionSpec) : Prop := Filled x ∧ ∀ segment ∈ x.folder, Plain segment

structure Editable (lib : SessionLibrary) : Prop where
  tidy : Tidy lib
  writable : ∀ t ∈ lib.tops, t.writable = true
  sessions : ∀ t ∈ lib.tops, ∀ x ∈ t.data.sessions, Filed x
  folders : ∀ t ∈ lib.tops, ∀ f ∈ t.data.folders, ∀ segment ∈ f, Plain segment

theorem Editable.include {lib : SessionLibrary} (h : Editable lib) {t : TopFolder}
    (hfresh : Store.Fresh lib t.name t.path) (hwritable : t.writable = true)
    (hempty : t.data = .empty) : Editable (lib.include t) where
  tidy := h.tidy.include hfresh
  writable u hu := by
    rcases List.mem_append.mp hu with hu | hu
    · exact h.writable u hu
    · obtain rfl := List.mem_singleton.mp hu
      exact hwritable
  sessions u hu x hx := by
    rcases List.mem_append.mp hu with hu | hu
    · exact h.sessions u hu x hx
    · obtain rfl := List.mem_singleton.mp hu
      rw [hempty] at hx
      exact absurd hx List.not_mem_nil
  folders u hu f hf := by
    rcases List.mem_append.mp hu with hu | hu
    · exact h.folders u hu f hf
    · obtain rfl := List.mem_singleton.mp hu
      rw [hempty] at hf
      exact absurd hf List.not_mem_nil

theorem Editable.upserted {lib : SessionLibrary} (h : Editable lib) {stored : SessionSpec}
    {idx : Nat} {t : TopFolder} (ht : lib.tops[idx]? = some t) (hstored : Filed stored) :
    Editable (lib.upserted stored idx) := by
  have hwritable := h.writable t (List.mem_of_getElem? ht)
  have hedit : Revised lib (lib.upserted stored idx) (lib.affected stored.id idx) :=
    revised_upserted ht hwritable
  have htop : ∀ u' ∈ (lib.upserted stored idx).tops, ∃ u ∈ lib.tops,
      u'.writable = u.writable ∧ u'.data.folders = u.data.folders ∧
        ∀ x ∈ u'.data.sessions, x ∈ u.data.sessions ∨ x = stored := by
    intro u' hu'
    obtain ⟨i, hi'⟩ := List.mem_iff_getElem?.mp hu'
    obtain ⟨u, hi, -, -⟩ := hedit.top hi'
    rw [upserted_top hi, Option.some.injEq] at hi'
    refine ⟨u, List.mem_of_getElem? hi, ?_⟩
    subst hi'
    have hretain : ∀ x ∈ (u.retain stored.id).data.sessions, x ∈ u.data.sessions :=
      fun x hx => (List.mem_filter.mp hx).1
    split
    · refine ⟨rfl, rfl, fun x hx => ?_⟩
      rcases List.mem_append.mp hx with hx | hx
      · exact .inl (hretain x hx)
      · exact .inr (List.mem_singleton.mp hx)
    · exact ⟨rfl, rfl, fun x hx => .inl (hretain x hx)⟩
  refine ⟨h.tidy.revised hedit, fun u' hu' => ?_, fun u' hu' x hx => ?_, fun u' hu' f hf => ?_⟩ <;>
    obtain ⟨u, hu, hw, hfolders, hsessions⟩ := htop u' hu'
  · rw [hw]
    exact h.writable u hu
  · rcases hsessions x hx with hold | rfl
    · exact h.sessions u hu x hold
    · exact hstored
  · rw [hfolders] at hf
    exact h.folders u hu f hf

end SessionLibrary

namespace Store

open SessionLibrary Platform

variable (P : Platform Text)

/-- Adding a new file, saving a form, and moving a session to a listed folder. -/
def EditStep (s : Store Text) : LibraryOp → Prop
  | .addFile _ path => (s.world.store (P.fileOf (s.resolveFilePath P path))).exists = false
  | .upsertSession spec => ∃ e : SessionEditor, e.toSpec = .ok spec
  | .moveSession _ folder => folder ∈ s.lib.listFolders
  | _ => False

variable {P}

theorem mem_listFolders {lib : SessionLibrary} {folder : FolderPath} :
    folder ∈ lib.listFolders ↔
      ∃ t ∈ lib.tops, folder = [t.name] ∨ ∃ f ∈ t.data.folders, folder = t.name :: f := by
  simp only [listFolders, List.mem_flatMap, List.mem_cons, List.mem_map, prepend, eq_comm]

theorem upsert_editable {s : Store Text} (h : Editable s.lib) {spec : SessionSpec}
    (hfilled : Filled spec)
    (hrel : ∀ name rel, spec.folder = name :: rel → ∀ segment ∈ rel, Plain segment) :
    Editable (s.upsertSession P spec).2.lib := by
  rcases upsertSession_cases P s.lib spec with ⟨e, he⟩ | ⟨idx, rel, t, haccepts⟩
  · have hsame : s.upsertSession P spec = (.error e, s) := he s.world
    rw [hsame]
    exact h
  · rw [upsertSession_of_accepts P haccepts]
    exact h.upserted haccepts.top ⟨hfilled, hrel t.name rel haccepts.folder⟩

theorem filled_of_view {lib : SessionLibrary} (h : Editable lib) {x : SessionSpec}
    (hx : x ∈ lib.view) : Filled x := by
  obtain ⟨t, ht, y, hy, rfl⟩ := mem_view.mp hx
  exact (h.sessions t ht y hy).1

theorem call_editable {s : Store Text} (h : Editable s.lib) {op : LibraryOp}
    (hop : EditStep P s op) : Editable (s.call P op).2.lib := by
  cases op with
  | addFile name path =>
      have hcases := call_cases P s (.addFile name path)
      generalize s.call P (.addFile name path) = res at hcases ⊢
      cases hcases with
      | refused _ e hwrote => exact h
      | nothing _ hadd hgone => exact h
      | edit hedits hedit => cases hedits
      | @added _ name' _ w pre hname hfresh hwrote hpre =>
          -- the file has just been created
          have hmissing : (s.world.store (P.fileOf (s.resolveFilePath P path))).exists = false :=
            hop
          rw [hmissing] at hpre
          subst hpre
          have hcreated : w.store (P.fileOf (s.resolveFilePath P path)) =
              .file (P.encodeSessions .empty) := by
            rw [hwrote.store]
            exact Function.update_self ..
          have hload := loadFile_saved hcreated
          refine h.include ⟨hfresh.trimmed, hfresh.name, hfresh.path⟩ ?_ ?_
          · rw [loadTop, hload]
          · rw [loadTop, hload]
  | upsertSession spec =>
      obtain ⟨e, he⟩ := hop
      obtain ⟨hfilled, hfolder⟩ := SessionEditor.toSpec_ok he
      refine upsert_editable h hfilled fun name rel hspec segment hsegment => ?_
      have hmem : segment ∈ parseFolder e.folder := by
        rw [← hfolder, hspec]
        exact List.mem_cons_of_mem _ hsegment
      exact plain_of_parseFolder hmem
  | moveSession id folder =>
      have hcall : s.call P (.moveSession id folder) = s.moveSession P id folder := rfl
      rw [hcall, moveSession]
      cases hget : s.lib.getSession id with
      | none => exact h
      | some x =>
          have hfilled : Filled x := filled_of_view h (getSession_mem hget).1
          refine upsert_editable h hfilled fun name rel hspec => ?_
          obtain ⟨t, ht, hroot | ⟨f, hf, hsub⟩⟩ := mem_listFolders.mp hop
          · obtain ⟨-, rfl⟩ := List.cons.inj (hspec.symm.trans hroot)
            exact List.forall_mem_nil _
          · obtain ⟨-, rfl⟩ := List.cons.inj (hspec.symm.trans hsub)
            exact h.folders t ht _ hf
  | _ => exact hop.elim

/-- A library opened in a directory without files. -/
theorem opened_editable {dir : Path} {made : Except StoreError Unit} {w : World Text}
    {s : Store Text} (hopen : P.openStore dir made w = some s)
    (hindex : w.store (P.fileOf (dir.file "library.json")) = .missing)
    (hsessions : w.store (P.fileOf (dir.file "sessions.json")) = .missing) : Editable s.lib := by
  obtain ⟨index, created, hopens⟩ := openStore_cases hopen
  have hread := hopens.read
  simp only [readIndex, hindex, Entry.exists, Bool.not_false, if_true, Except.ok.injEq] at hread
  subst hread
  have hlib := hopens.lib.trans (migrate_seeded P w.store dir)
  have hload : P.loadFile w.store (dir.file "sessions.json") = (.empty, true, none) := by
    simp only [loadFile, hsessions, Entry.read]
  have htops : s.lib.tops = [⟨defaultTopFolder, dir.file "sessions.json", .empty, true, none⟩] := by
    rw [hlib, loadTop, hload]
  refine ⟨hopens.fits.tidy, fun t ht => ?_, fun t ht x hx => ?_, fun t ht f hf => ?_⟩ <;>
    rw [htops] at ht <;> obtain rfl := List.mem_singleton.mp ht
  · rfl
  · exact absurd hx List.not_mem_nil
  · exact absurd hf List.not_mem_nil

theorem run_editable {s u : Store Text} {ops : List LibraryOp} (h : Editable s.lib)
    (halong : Along (step P) (EditStep P) s ops) (hrun : run (step P) s ops = some u) :
    Editable u.lib := by
  refine run_invariant (I := fun v : Store Text => Editable v.lib)
    (fun v op v' hv hop hstep => ?_) h halong hrun
  obtain rfl : (v.call P op).2 = v' := Option.some.inj hstep
  exact call_editable hv hop

/-! ## Saving the form -/

/-- `x` has the same file and folder in both trees. -/
def Stays (lib lib' : SessionLibrary) (x : SessionSpec) : Prop :=
  ∃ (i : Nat) (t t' : TopFolder) (y : SessionSpec), lib.tops[i]? = some t ∧
    x ∈ t.sessions ∧ lib'.tops[i]? = some t' ∧ t'.path = t.path ∧ y ∈ t'.sessions ∧
    y.folder = x.folder ∧ lib'.getSession x.id = some y

/-- The form of `x` is saved, where no write fails, and leaves `x` in place. -/
def EditKeeps (P : Platform Text) (s : Store Text) (x : SessionSpec) : Prop :=
  ∃ spec, (SessionEditor.edit x).toSpec = .ok spec ∧
    (s.succeeding.upsertSession P spec).1 = .ok () ∧
    Stays s.lib (s.succeeding.upsertSession P spec).2.lib x

/-- A top-level folder is found by its name. -/
theorem accepts_of_mem {lib : SessionLibrary} (h : Editable lib) {t : TopFolder} (ht : t ∈ lib.tops)
    {spec : SessionSpec} {rel : FolderPath} (hfolder : spec.folder = t.name :: rel) :
    ∃ idx, Accepts lib spec idx rel t := by
  cases hidx : lib.tops.findIdx? fun u => u.name = t.name with
  | none =>
      have hnone : t.name ≠ t.name := by simpa using List.findIdx?_eq_none_iff.mp hidx t ht
      exact absurd rfl hnone
  | some idx =>
      obtain ⟨u, hu, hname⟩ := findIdx_name hidx
      obtain rfl := h.tidy.eq_of_name (List.mem_of_getElem? hu) ht hname
      have hlocate : lib.locate spec.folder = .ok (idx, rel) := by
        simp only [hfolder, locate, hidx]
      exact ⟨idx, hlocate, hu, h.writable u ht, hfolder⟩

/-- Saved under its own id and folder, a session stays where it is. -/
theorem saved_stays {s : Store Text} (h : Editable s.lib) {t : TopFolder} (ht : t ∈ s.lib.tops)
    {y : SessionSpec} (hy : y ∈ t.data.sessions) {spec : SessionSpec} (hid : spec.id = y.id)
    (hfolder : spec.folder = t.name :: y.folder) :
    (s.succeeding.upsertSession P spec).1 = .ok () ∧
      Stays s.lib (s.succeeding.upsertSession P spec).2.lib
        { y with folder := t.name :: y.folder } := by
  obtain ⟨idx, haccepts⟩ := accepts_of_mem h ht hfolder
  have haccepts' : Accepts s.succeeding.lib spec idx y.folder t := haccepts
  have hcall := upsertSession_of_accepts P haccepts'
  have hok : (s.succeeding.upsertSession P spec).1 = .ok () := by
    rw [hcall]
    exact (save_of_fates_nil rfl _).1
  have hget := Keyed.lookup_put (upsertSession_view P hok)
  rw [← getSession_eq] at hget
  have hlib : (s.succeeding.upsertSession P spec).2.lib =
      s.lib.upserted { spec with folder := y.folder } idx := by
    rw [hcall]
    rfl
  refine ⟨hok, idx, t, (t.retain spec.id).push { spec with folder := y.folder }, spec,
    haccepts.top, List.mem_map_of_mem hy, ?_, rfl, ?_, hfolder, hid ▸ hget⟩
  · rw [hlib, upserted_top haccepts.top, if_pos rfl]
  · -- with its absolute folder, what was stored is what was saved
    refine List.mem_map.mpr ⟨{ spec with folder := y.folder },
      List.mem_append_right _ List.mem_cons_self, ?_⟩
    have habs : prepend t.name y.folder = spec.folder := hfolder.symm
    exact congrArg (fun folder => { spec with folder := folder }) habs

/-- In every library made of new files, forms and moves to listed folders, a
session stays in its folder and file when its form is saved unchanged, exactly
if the name of its top-level folder has no slash. -/
theorem edit_keeps_folder_iff {dir : Path} {made : Except StoreError Unit} {w : World Text}
    {s u : Store Text} {ops : List LibraryOp} (hopen : P.openStore dir made w = some s)
    (hindex : w.store (P.fileOf (dir.file "library.json")) = .missing)
    (hsessions : w.store (P.fileOf (dir.file "sessions.json")) = .missing)
    (halong : Along (step P) (EditStep P) s ops) (hrun : run (step P) s ops = some u)
    {x : SessionSpec} (hx : x ∈ u.listed P) :
    EditKeeps P u x ↔ ∀ name ∈ x.folder.head?, '/' ∉ name.toList := by
  have h := run_editable (opened_editable hopen hindex hsessions) halong hrun
  have hview : x ∈ u.lib.view := (u.listed_perm P).mem_iff.mp hx
  have hedit := SessionEditor.toSpec_edit (filled_of_view h hview)
  constructor
  · rintro ⟨spec, hspec, hok, i, t, t', y, -, -, -, -, -, hfolder, hget⟩ name hname
    obtain rfl := Except.ok.inj (hedit.symm.trans hspec)
    -- what is found under the id is what was saved
    have hsaved := Keyed.lookup_put (upsertSession_view P hok)
    rw [← getSession_eq] at hsaved
    obtain rfl := Option.some.inj (hsaved.symm.trans hget)
    have hmem : name ∈ x.folder := List.mem_of_mem_head? hname
    rw [← hfolder] at hmem
    exact (plain_of_parseFolder hmem).2
  · intro hslash
    obtain ⟨t, ht, y, hy, rfl⟩ := mem_view.mp hview
    have hplain : ∀ segment ∈ t.name :: y.folder, Plain segment := by
      intro segment hsegment
      rcases List.mem_cons.mp hsegment with rfl | hsegment
      · exact ⟨nonBlank_eq_self_iff.mp (h.tidy.trimmed t ht), hslash _ rfl⟩
      · exact (h.sessions t ht y hy).2 segment hsegment
    exact ⟨_, hedit, saved_stays h ht hy rfl (parseFolder_folderToString hplain)⟩

/-- A shell below the top-level folder "Work". -/
def workSession : SessionSpec :=
  ⟨⟨1⟩, "web", ["Work", "edge"], .localShell ⟨none, none, []⟩, .prompt⟩

def workCalls : List LibraryOp :=
  [.addFile "Work" ⟨false, [.normal "work.json"]⟩, .upsertSession workSession]

theorem edit_keeps_folder_iff_work :
    ∃ s u, Platform.openStore .plain sampleDir (.ok ()) freshDisk = some s ∧
      run (step .plain) s workCalls = some u ∧ EditKeeps .plain u workSession := by
  have hopen : (Platform.openStore .plain sampleDir (.ok ()) freshDisk).any (fun s =>
      (run (step .plain) s workCalls).any fun u => decide (
        (s.world.store (Platform.plain.fileOf
          (s.resolveFilePath .plain ⟨false, [.normal "work.json"]⟩))).exists = false ∧
        workSession ∈ u.listed .plain)) = true := by
    decide +kernel
  obtain ⟨s, hs, hrun⟩ := (Option.any_eq_true _ _).mp hopen
  obtain ⟨u, hu, hsetup⟩ := (Option.any_eq_true _ _).mp hrun
  obtain ⟨hnew, hlisted⟩ := of_decide_eq_true hsetup
  have hform : ({ SessionEditor.newIn ⟨1⟩ ["Work", "edge"] with
      name := "web", kind := .localShell } : SessionEditor).toSpec = .ok workSession := by
    decide +kernel
  have halong : Along (step .plain) (EditStep .plain) s workCalls :=
    ⟨hnew, fun _ _ => ⟨⟨_, hform⟩, fun _ _ => trivial⟩⟩
  exact ⟨s, u, hs, hu, (edit_keeps_folder_iff hs rfl rfl halong hu hlisted).mpr (by decide +kernel)⟩

/-- Saved in the default folder and then moved to a folder called "A/B". -/
def slashCalls : List LibraryOp :=
  [.addFile "A/B" ⟨false, [.normal "ab.json"]⟩,
    .upsertSession { workSession with folder := ["General"] }, .moveSession ⟨1⟩ ["A/B"]]

/-- The form of the moved session shows the folder "A/B", which is read as a
folder "B" in a top-level folder "A": the session cannot be saved. -/
theorem slash_not_saved :
    ∃ s u, Platform.openStore .plain sampleDir (.ok ()) freshDisk = some s ∧
      Along (step .plain) (EditStep .plain) s slashCalls ∧
      run (step .plain) s slashCalls = some u ∧
      { workSession with folder := ["A/B"] } ∈ u.listed .plain ∧
      (SessionEditor.edit { workSession with folder := ["A/B"] }).toSpec =
        .ok { workSession with folder := ["A", "B"] } ∧
      (u.succeeding.upsertSession .plain { workSession with folder := ["A", "B"] }).1 =
        .error (.unknownTopFolder "A") ∧
      ¬ EditKeeps .plain u { workSession with folder := ["A/B"] } := by
  have hopen : (Platform.openStore .plain sampleDir (.ok ()) freshDisk).any (fun s =>
      (run (step .plain) s slashCalls).any fun u => decide (
        (s.world.store (Platform.plain.fileOf
          (s.resolveFilePath .plain ⟨false, [.normal "ab.json"]⟩))).exists = false ∧
        ((s.call .plain (.addFile "A/B" ⟨false, [.normal "ab.json"]⟩)).2.call .plain
          (.upsertSession { workSession with folder := ["General"] })).2.lib.listFolders.contains
            ["A/B"] = true ∧
        { workSession with folder := ["A/B"] } ∈ u.listed .plain ∧
        (u.succeeding.upsertSession .plain { workSession with folder := ["A", "B"] }).1 =
          .error (.unknownTopFolder "A"))) = true := by
    decide +kernel
  obtain ⟨s, hs, hrun⟩ := (Option.any_eq_true _ _).mp hopen
  obtain ⟨u, hu, hsetup⟩ := (Option.any_eq_true _ _).mp hrun
  obtain ⟨hnew, hfolder, hlisted, hrefused⟩ := of_decide_eq_true hsetup
  have hform : ({ SessionEditor.newIn ⟨1⟩ ["General"] with
      name := "web", kind := .localShell } : SessionEditor).toSpec =
        .ok { workSession with folder := ["General"] } := by
    decide +kernel
  have hedit : (SessionEditor.edit { workSession with folder := ["A/B"] }).toSpec =
      .ok { workSession with folder := ["A", "B"] } := by
    decide +kernel
  refine ⟨s, u, hs, ⟨hnew, fun t ht => ⟨⟨_, hform⟩, fun t' ht' => ⟨?_, fun _ _ => trivial⟩⟩⟩, hu,
    hlisted, hedit, hrefused, ?_⟩
  · obtain rfl := Option.some.inj ht
    obtain rfl := Option.some.inj ht'
    exact List.contains_iff_mem.mp hfolder
  · rintro ⟨spec, hspec, hok, -⟩
    obtain rfl := Except.ok.inj (hedit.symm.trans hspec)
    rw [hrefused] at hok
    cases hok

end Store

end PolyTerm.Saved
