import PolyTerm.Addressing
import PolyTerm.FailedCalls
import PolyTerm.SessionMap
import PolyTerm.SessionPanel

/-!
# What the panel offers is there

A save from the form and a folder being added are the two calls after which the
panel does not reload when they fail, and a failed call may have changed the
library. Neither of the two ever takes a session or a top-level folder away
(`Grows`). So whatever fails, and in whatever order the panel, the form and the
dialogs are used, each action finds its session and the top-level file it is
about (`offered_found`); a folder within that file may have gone with its last
session, in a save that failed. The lists are those of the library unless one of
the two calls failed halfway (`panel_current`).
-/

namespace PolyTerm.Saved

open PathTree Runs

variable {Text : Type} {P : Platform Text} {lib lib' : SessionLibrary} {folders : List FolderPath}

/-! ## What the tree offers -/

namespace SessionPanel

/-- A child that is found has its key among the keys. -/
theorem mem_keys_of_find {name : String} {path : FolderPath}
    {values : List (SessionId × String)} : ∀ {children : Children String (SessionId × String)},
      ((⟨children, values⟩ : FolderNode).find (name :: path)).isSome → name ∈ children.keys
  | .nil, h => by simp [Node.find, Children.get?] at h
  | .cons key child rest, h => by
      by_cases hkey : key = name
      · exact hkey ▸ List.mem_cons_self
      · have hrest : ((⟨rest, values⟩ : FolderNode).find (name :: path)).isSome := by
          simpa [Node.find, Children.get?, hkey] using h
        exact List.mem_cons_of_mem _ (mem_keys_of_find hrest)

mutual

/-- An action is offered on a session of the tree, or on a folder in it. -/
theorem mem_renderFolder {path : FolderPath} {a : PanelAction} : ∀ {node : FolderNode},
    node.Ascending → a ∈ renderFolder folders path node →
      (∃ item ∈ node.all, a ∈ sessionRow folders item.1) ∨
        ∃ rel name, (node.find (rel ++ [name])).isSome ∧
          (a = .newSession (path ++ rel ++ [name]) ∨
            a = .beginDeleteFolder (folderTarget (path ++ rel) name))
  | ⟨children, sessions⟩, hasc, ha => by
      rw [renderFolder, List.mem_append] at ha
      rcases ha with ha | ha
      · rcases mem_renderFolders hasc.1 hasc.2 sessions ha with ⟨item, hitem, hrow⟩ | hfolder
        · exact .inl ⟨item, List.mem_append_right _ hitem, hrow⟩
        · exact .inr hfolder
      · obtain ⟨item, hitem, hrow⟩ := List.mem_flatMap.mp ha
        exact .inl ⟨item, List.mem_append_left _ hitem, hrow⟩

theorem mem_renderFolders {path : FolderPath} {a : PanelAction} :
    ∀ {children : Children String (SessionId × String)},
      children.keys.Pairwise (· < ·) → children.Ascending →
        ∀ values, a ∈ renderFolders folders path children →
          (∃ item ∈ children.all, a ∈ sessionRow folders item.1) ∨
            ∃ rel name, ((⟨children, values⟩ : FolderNode).find (rel ++ [name])).isSome ∧
              (a = .newSession (path ++ rel ++ [name]) ∨
                a = .beginDeleteFolder (folderTarget (path ++ rel) name))
  | .nil, _, _, _, ha => by cases ha
  | .cons key child rest, hkeys, hasc, values, ha => by
      obtain ⟨hfirst, hrest⟩ := List.pairwise_cons.mp hkeys
      rw [renderFolders, List.mem_append, List.mem_append] at ha
      rcases ha with (ha | ha) | ha
      · rcases mem_renderFolder hasc.1 ha with ⟨item, hitem, hrow⟩ | ⟨rel, name, hfind, hact⟩
        · exact .inl ⟨item, List.mem_append_left _ hitem, hrow⟩
        · refine .inr ⟨key :: rel, name, ?_, by simpa using hact⟩
          simpa [Node.find, Children.get?] using hfind
      · refine .inr ⟨[], key, by simp [Node.find, Children.get?], ?_⟩
        simpa using ha
      · rcases mem_renderFolders hrest hasc.2 values ha with
          ⟨item, hitem, hrow⟩ | ⟨rel, name, hfind, hact⟩
        · exact .inl ⟨item, List.mem_append_right _ hitem, hrow⟩
        · refine .inr ⟨rel, name, ?_, hact⟩
          -- a key of the rest is above this child's
          obtain ⟨first, path, hpath⟩ : ∃ first path, rel ++ [name] = first :: path :=
            List.exists_cons_of_ne_nil (by simp)
          rw [hpath] at hfind ⊢
          have hne : key ≠ first := ne_of_lt (hfirst first (mem_keys_of_find hfind))
          simpa [Node.find, Children.get?, hne] using hfind

end

/-! ## Libraries that grow -/

/-- Every session and every top-level folder of `lib` is in `lib'`. -/
structure Grows (lib lib' : SessionLibrary) : Prop where
  sessions : ∀ x ∈ lib.view, ∃ y ∈ lib'.view, y.id = x.id
  tops : ∀ t ∈ lib.tops, ∃ u ∈ lib'.tops, u.name = t.name

theorem Grows.refl (lib : SessionLibrary) : Grows lib lib :=
  ⟨fun x hx => ⟨x, hx, rfl⟩, fun t ht => ⟨t, ht, rfl⟩⟩

/-- A save takes away only what it puts back. -/
theorem grows_upsert (P : Platform Text) (store : Store Text) (spec : SessionSpec) :
    Grows store.lib (store.call P (.upsertSession spec)).2.lib := by
  rcases Store.upsertSession_cases P store.lib spec with ⟨e, he⟩ | ⟨idx, rel, t, h⟩
  · have hsame : store.call P (.upsertSession spec) = (.error e, store) := he store.world
    rw [hsame]
    exact Grows.refl _
  · have hlib : (store.call P (.upsertSession spec)).2.lib =
        store.lib.upserted { spec with folder := rel } idx := by
      simp only [Store.call, Store.upsertSession_of_accepts P h]
      rfl
    rw [hlib]
    constructor
    · intro x hx
      have hview := SessionLibrary.view_upserted h
      by_cases hid : x.id = spec.id
      · exact ⟨spec, hview.mem_iff.mpr List.mem_cons_self, hid.symm⟩
      · refine ⟨x, hview.mem_iff.mpr (List.mem_cons_of_mem _ ?_), rfl⟩
        exact Keyed.mem_erase.mpr ⟨hx, hid⟩
    · intro u hu
      obtain ⟨i, hi⟩ := List.mem_iff_getElem?.mp hu
      have hrevised : SessionLibrary.Revised store.lib (store.lib.upserted { spec with folder := rel } idx)
          (store.lib.affected spec.id idx) := SessionLibrary.revised_upserted h.top h.writable
      obtain ⟨data, hdata, -⟩ := hrevised.contents i u hi
      exact ⟨_, List.mem_of_getElem? hdata, rfl⟩

/-- Adding a file adds to the others. -/
theorem grows_addFile (P : Platform Text) (store : Store Text) (name : String) (path : Path) :
    Grows store.lib (store.call P (.addFile name path)).2.lib := by
  have hcases := Store.call_cases P store (.addFile name path)
  generalize hop : LibraryOp.addFile name path = op at hcases
  generalize store.call P op = res at hcases ⊢
  cases hcases with
  | refused _ e h => exact Grows.refl _
  | nothing _ h hgone => exact absurd hop.symm (h name path)
  | edit hedits h =>
      rw [← hop] at hedits
      cases hedits
  | removed h => cases hop
  | added hname hfresh hwrote hpre =>
      constructor
      · intro x hx
        refine ⟨x, ?_, rfl⟩
        simp only [Store.saveIndex, Store.save, SessionLibrary.include, SessionLibrary.view,
          List.flatMap_append]
        exact List.mem_append_left _ hx
      · intro t ht
        exact ⟨t, List.mem_append_left _ ht, rfl⟩

/-! ## What the panel shows -/

/-- What the panel shows is in the library: its sessions by id, and the
top-level folder of each of its paths. -/
structure Covers (lib : SessionLibrary) (s : SessionPanel Text) : Prop where
  ids : ∀ x ∈ s.sessions, ∃ y ∈ lib.view, y.id = x.id
  homes : ∀ x ∈ s.sessions, ∃ t ∈ lib.tops, x.folder.head? = some t.name
  folders : ∀ f ∈ s.folders, ∃ t ∈ lib.tops, f.head? = some t.name

def Covered (s : SessionPanel Text) : Prop := ∀ store, s.library = some store → Covers store.lib s

variable {s t : SessionPanel Text}

theorem Covers.grows (h : Covers lib s) (hgrows : Grows lib lib')
    (hsessions : t.sessions = s.sessions) (hfolders : t.folders = s.folders) : Covers lib' t where
  ids := by
    rw [hsessions]
    intro x hx
    obtain ⟨y, hy, hid⟩ := h.ids x hx
    obtain ⟨z, hz, hid'⟩ := hgrows.sessions y hy
    exact ⟨z, hz, hid'.trans hid⟩
  homes := by
    rw [hsessions]
    intro x hx
    obtain ⟨u, hu, hname⟩ := h.homes x hx
    obtain ⟨v, hv, hname'⟩ := hgrows.tops u hu
    exact ⟨v, hv, hname.trans (congrArg some hname'.symm)⟩
  folders := by
    rw [hfolders]
    intro f hf
    obtain ⟨u, hu, hname⟩ := h.folders f hf
    obtain ⟨v, hv, hname'⟩ := hgrows.tops u hu
    exact ⟨v, hv, hname.trans (congrArg some hname'.symm)⟩

/-- The lists that a reload copies are covered. -/
theorem covers_lists (lib : SessionLibrary) (lower : String → String)
    (hsessions : s.sessions = lib.listSessions lower) (hfolders : s.folders = lib.listFolders) :
    Covers lib s where
  ids := by
    rw [hsessions]
    exact fun x hx => ⟨x, (lib.listSessions_perm lower).mem_iff.mp hx, rfl⟩
  homes := by
    rw [hsessions]
    intro x hx
    obtain ⟨i, stored, t, ht, -, rfl⟩ := SessionLibrary.mem_listSessions.mp hx
    exact ⟨t, List.mem_of_getElem? ht, rfl⟩
  folders := by
    rw [hfolders]
    intro f hf
    obtain ⟨i, rel, t, ht, -, rfl⟩ := SessionLibrary.mem_listFolders.mp hf
    exact ⟨t, List.mem_of_getElem? ht, rfl⟩

/-- The lists are the library's. -/
def Current (P : Platform Text) (s : SessionPanel Text) : Prop :=
  ∀ store, s.library = some store →
    s.sessions = store.lib.listSessions P.toLowercase ∧ s.folders = store.lib.listFolders

theorem Current.covered (h : s.Current P) : s.Covered :=
  fun store hs => covers_lists store.lib P.toLowercase (h store hs).1 (h store hs).2

theorem reload_current (s : SessionPanel Text) : (s.reload P).Current P := by
  intro store hs
  unfold reload at hs ⊢
  split at hs
  · rename_i held heq
    have hheld : held = store := Option.some.inj (heq.symm.trans hs)
    subst hheld
    rw [heq]
    exact ⟨rfl, rfl⟩
  · rename_i hnone
    rw [hnone] at hs
    cases hs

theorem storeOp_current (s : SessionPanel Text) (op : LibraryOp) :
    (s.storeOp P op).Current P := by
  cases hlib : s.library with
  | none =>
      simp only [storeOp, hlib]
      exact reload_current _
  | some store =>
      rcases hcall : store.call P op with ⟨result, store'⟩
      cases result <;>
        · simp only [storeOp, hlib, hcall]
          exact reload_current _

/-! ## One step -/

/-- The call that a step makes without reloading if it fails: the save of the
form, or the file of a folder being added. -/
def attempts (toPath : String → Path) (s : SessionPanel Text) : Label → Option LibraryOp
  | .editor typed .save => s.editor.bind fun form =>
      match SessionEditor.toSpec { typed with id := form.editor.id, isNew := form.editor.isNew } with
      | .ok spec => some (.upsertSession spec)
      | .error _ => none
  | .addFolder name path _ true false =>
      match s.addFolder, nonBlank name, nonBlank path with
      | some _, some name, some path => some (.addFile name (toPath path))
      | _, _, _ => none
  | _ => none

theorem attempts_grows {toPath : String → Path} {l : Label} {op : LibraryOp}
    (h : s.attempts toPath l = some op) (P : Platform Text) (store : Store Text) :
    Grows store.lib (store.call P op).2.lib := by
  unfold attempts at h
  split at h
  · obtain ⟨form, -, h⟩ := Option.bind_eq_some_iff.mp h
    split at h
    · obtain rfl := Option.some.inj h
      exact grows_upsert P store _
    · cases h
  · split at h
    · obtain rfl := Option.some.inj h
      exact grows_addFile P store _ _
    · cases h
  · cases h

/-- What a step does to the library and to the lists: it ends with a reload, or
leaves both, or makes a call that fails and leaves the lists. -/
inductive Moved (P : Platform Text) (attempt : Option LibraryOp) (s t : SessionPanel Text) :
    Prop where
  | reloaded (current : t.Current P)
  | kept (library : t.library = s.library) (sessions : t.sessions = s.sessions)
      (folders : t.folders = s.folders)
  | failed (store : Store Text) (op : LibraryOp) (e : StoreError) (made : attempt = some op)
      (held : s.library = some store) (result : (store.call P op).1 = .error e)
      (library : t.library = some (store.call P op).2) (sessions : t.sessions = s.sessions)
      (folders : t.folders = s.folders)

theorem applyPanelAction_moved (s : SessionPanel Text) (fresh : SessionId) (a : PanelAction) :
    Moved P none s (s.applyPanelAction P fresh a) := by
  cases a with
  | duplicateSession id => exact .reloaded (storeOp_current s _)
  | deleteSession id => exact .reloaded (storeOp_current s _)
  | moveSession id folder => exact .reloaded (storeOp_current s _)
  | editSession id =>
      simp only [applyPanelAction]
      split <;> exact .kept rfl rfl rfl
  | openLocalShell | openSaved | newSession | beginAddFolder | beginDeleteFolder | openSettings =>
      exact .kept rfl rfl rfl

theorem saveSession_moved (before : SessionPanel Text) (hlibrary : s.library = before.library)
    (hsessions : s.sessions = before.sessions) (hfolders : s.folders = before.folders)
    (spec : SessionSpec) :
    Moved P (some (.upsertSession spec)) before (s.saveSession P spec) := by
  cases hlib : s.library with
  | none =>
      simp only [saveSession, hlib]
      exact .reloaded (reload_current _)
  | some store =>
      rcases hcall : store.call P (.upsertSession spec) with ⟨result, store'⟩
      cases result with
      | error e =>
          simp only [saveSession, hlib, hcall]
          exact .failed store _ e rfl (hlibrary.symm.trans hlib) (by rw [hcall]) (by rw [hcall])
            hsessions hfolders
      | ok u =>
          simp only [saveSession, hlib, hcall]
          exact .reloaded (reload_current _)

theorem editorFrame_moved (toPath : String → Path) (s : SessionPanel Text)
    (typed : SessionEditor) (click : EditorClick) :
    Moved P (s.attempts toPath (.editor typed click)) s (s.editorFrame P typed click) := by
  cases hform : s.editor with
  | none =>
      simp only [editorFrame, hform]
      exact .kept rfl rfl rfl
  | some form =>
      cases click with
      | nothing | browse | cancel =>
          simp only [editorFrame, hform]
          exact .kept rfl rfl rfl
      | save =>
          cases hspec : SessionEditor.toSpec
              { typed with id := form.editor.id, isNew := form.editor.isNew } with
          | error e =>
              simp only [editorFrame, hform, hspec]
              exact .kept rfl rfl rfl
          | ok spec =>
              simp only [editorFrame, attempts, hform, hspec, Option.bind_some]
              exact saveSession_moved (s := { s with editor := none }) s rfl rfl rfl spec

theorem addFolderFrame_moved (toPath : String → Path) (s : SessionPanel Text)
    (name path : String) (browse submit dismissed : Bool) :
    Moved P (s.attempts toPath (.addFolder name path browse submit dismissed)) s
      (s.addFolderFrame P toPath name path browse submit dismissed) := by
  cases hdialog : s.addFolder with
  | none =>
      simp only [addFolderFrame, hdialog]
      exact .kept rfl rfl rfl
  | some dialog =>
      cases dismissed with
      | true =>
          simp only [addFolderFrame, hdialog, if_true]
          exact .kept rfl rfl rfl
      | false =>
          cases submit with
          | false =>
              simp only [addFolderFrame, hdialog, Bool.false_eq_true, if_false]
              cases browse <;> exact .kept rfl rfl rfl
          | true =>
              simp only [addFolderFrame, attempts, hdialog, Bool.false_eq_true, if_false, if_true]
              cases hname : nonBlank name with
              | none => cases browse <;> exact .kept rfl rfl rfl
              | some name' =>
                  cases hpath : nonBlank path with
                  | none => cases browse <;> exact .kept rfl rfl rfl
                  | some path' =>
                      -- the picker is begun before the library is called
                      generalize hs' : (if browse = true then _ else _ : SessionPanel Text) = s'
                      have hlibrary : s'.library = s.library := by
                        rw [← hs']
                        cases browse <;> rfl
                      have hsessions : s'.sessions = s.sessions := by
                        rw [← hs']
                        cases browse <;> rfl
                      have hfolders : s'.folders = s.folders := by
                        rw [← hs']
                        cases browse <;> rfl
                      cases hlib : s'.library with
                      | none => exact .reloaded (reload_current _)
                      | some store =>
                          rcases hcall : store.call P (.addFile name' (toPath path')) with
                            ⟨result, store'⟩
                          cases result with
                          | error e =>
                              simp only [hcall]
                              exact .failed store _ e rfl (hlibrary.symm.trans hlib)
                                (by rw [hcall]) (by rw [hcall]) hsessions hfolders
                          | ok u =>
                              simp only [hcall]
                              exact .reloaded (reload_current _)

theorem confirmFrame_moved (s : SessionPanel Text) (confirm dismissed : Bool) :
    Moved P none s (s.confirmFrame P confirm dismissed) := by
  cases htarget : s.confirmDelete with
  | none =>
      simp only [confirmFrame, htarget]
      exact .kept rfl rfl rfl
  | some target =>
      cases dismissed with
      | true =>
          simp only [confirmFrame, htarget, if_true]
          exact .kept rfl rfl rfl
      | false =>
          cases confirm with
          | false =>
              simp only [confirmFrame, htarget, Bool.false_eq_true, if_false]
              exact .kept rfl rfl rfl
          | true =>
              simp only [confirmFrame, htarget, Bool.false_eq_true, if_false, if_true]
              exact .reloaded (storeOp_current _ _)

theorem pollPick_moved (s : SessionPanel Text) (picked : Picked) :
    Moved P none s (s.pollPick picked) := by
  unfold pollPick
  split
  · exact .kept rfl rfl rfl
  · split
    · exact .kept rfl rfl rfl
    · exact .kept rfl rfl rfl
    · exact .kept rfl rfl rfl
    · split <;> exact .kept rfl rfl rfl

theorem step_moved {toPath : String → Path} {l : Label} (h : s.step P toPath l = some t) :
    Moved P (s.attempts toPath l) s t := by
  cases l with
  | click action fresh =>
      simp only [step] at h
      split at h
      · obtain rfl := Option.some.inj h
        exact applyPanelAction_moved s fresh action
      · cases h
  | searched query =>
      obtain rfl := Option.some.inj h
      exact .kept rfl rfl rfl
  | editor typed click =>
      obtain rfl := Option.some.inj h
      exact editorFrame_moved toPath s typed click
  | addFolder name path browse submit dismissed =>
      obtain rfl := Option.some.inj h
      exact addFolderFrame_moved toPath s name path browse submit dismissed
  | confirm confirm dismissed =>
      obtain rfl := Option.some.inj h
      exact confirmFrame_moved s confirm dismissed
  | pick picked =>
      obtain rfl := Option.some.inj h
      exact pollPick_moved s picked

theorem step_covered {toPath : String → Path} {l : Label} (h : s.Covered)
    (hstep : s.step P toPath l = some t) : t.Covered := by
  cases step_moved hstep with
  | reloaded current => exact current.covered
  | kept library sessions folders =>
      intro store hstore
      exact (h store (library ▸ hstore)).grows (Grows.refl _) sessions folders
  | failed store op e made held result library sessions folders =>
      intro store' hstore'
      obtain rfl := Option.some.inj (library.symm.trans hstore')
      exact (h store held).grows (attempts_grows made P store) sessions folders

/-! ## Actions find what they are offered on -/

/-- The library leads from the folder to a file. -/
def Located (lib : SessionLibrary) (folder : FolderPath) : Prop :=
  ∃ idx rel, lib.locate folder = .ok (idx, rel)

/-- What the action is about is in the library. -/
def Finds (lib : SessionLibrary) : PanelAction → Prop
  | .openSaved id | .editSession id | .duplicateSession id | .deleteSession id =>
      (lib.getSession id).isSome
  | .moveSession id folder => (lib.getSession id).isSome ∧ Located lib folder
  | .newSession folder => folder ≠ [] → Located lib folder
  | .beginDeleteFolder (.top name) => name ∈ lib.topFolderNames
  | .beginDeleteFolder (.sub path) => 2 ≤ path.length ∧ Located lib path
  | .openLocalShell | .beginAddFolder | .openSettings => True

theorem located_of_head {folder : FolderPath}
    (h : ∃ t ∈ lib.tops, folder.head? = some t.name) : Located lib folder := by
  obtain ⟨t, ht, hhead⟩ := h
  obtain ⟨rest, rfl⟩ : ∃ rest, folder = t.name :: rest := by
    cases folder with
    | nil => cases hhead
    | cons first rest => exact ⟨rest, by rw [Option.some.inj hhead]⟩
  cases hfind : lib.tops.findIdx? fun u => u.name = t.name with
  | some idx => exact ⟨idx, rest, by simp only [SessionLibrary.locate, hfind]⟩
  | none =>
      have hnone := List.findIdx?_eq_none_iff.mp hfind t ht
      simp at hnone

theorem getSession_isSome {id : SessionId} (h : ∃ y ∈ lib.view, y.id = id) :
    (lib.getSession id).isSome := by
  obtain ⟨y, hy, hid⟩ := h
  rw [SessionLibrary.getSession_eq, Option.isSome_iff_ne_none]
  intro hnone
  exact Keyed.lookup_eq_none.mp hnone y hy hid

/-- A row's actions are about its session, and about the listed folders. -/
theorem finds_row {a : PanelAction} {id : SessionId}
    (hid : ∃ y ∈ lib.view, y.id = id)
    (hfolders : ∀ f ∈ folders, ∃ t ∈ lib.tops, f.head? = some t.name)
    (ha : a ∈ sessionRow folders id) : Finds lib a := by
  simp only [sessionRow, List.mem_append, List.mem_cons, List.not_mem_nil, or_false,
    List.mem_map, List.mem_filter] at ha
  rcases ha with ((rfl | rfl | rfl) | ⟨f, ⟨hf, -⟩, rfl⟩) | rfl
  · exact getSession_isSome hid
  · exact getSession_isSome hid
  · exact getSession_isSome hid
  · exact ⟨getSession_isSome hid, located_of_head (hfolders f hf)⟩
  · exact getSession_isSome hid

/-- A folder of the tree begins like a folder or a session's folder shown. -/
theorem Covers.head (h : Covers lib s) {lower : String → String} {rel : FolderPath}
    {name : String}
    (hfind : ((buildFolderTree lower s.sessions s.folders).find (rel ++ [name])).isSome) :
    ∃ t ∈ lib.tops, (rel ++ [name]).head? = some t.name := by
  have hhead : ∀ {p f : FolderPath}, p ≠ [] → p <+: f → p.head? = f.head? := by
    rintro p f hp ⟨rest, rfl⟩
    rw [List.head?_append_of_ne_nil p hp]
  have hne : rel ++ [name] ≠ [] := by simp
  rw [find_buildFolderTree] at hfind
  split at hfind
  · rename_i hshown
    rcases hshown with hnil | ⟨spec, hspec, hp⟩ | ⟨f, hf, hp⟩
    · exact absurd hnil hne
    · rw [hhead hne hp]
      exact h.homes spec hspec
    · rw [hhead hne hp]
      exact h.folders f hf
  · cases hfind

theorem finds_folder {a : PanelAction} {rel : FolderPath} {name : String}
    (h : ∃ t ∈ lib.tops, (rel ++ [name]).head? = some t.name)
    (ha : a = .newSession (rel ++ [name]) ∨ a = .beginDeleteFolder (folderTarget rel name)) :
    Finds lib a := by
  rcases ha with rfl | rfl
  · exact fun _ => located_of_head h
  · cases rel with
    | nil =>
        obtain ⟨t, ht, hhead⟩ := h
        exact List.mem_map.mpr ⟨t, ht, (Option.some.inj hhead).symm⟩
    | cons first rest => exact ⟨by simp, located_of_head h⟩

theorem Covers.finds (h : Covers lib s) {store : Store Text} (hlib : s.library = some store)
    {a : PanelAction} (ha : a ∈ s.offered P) : Finds lib a := by
  unfold offered at ha
  rcases List.mem_append.mp ha with ha | ha
  · simp only [List.mem_cons, List.not_mem_nil, or_false] at ha
    rcases ha with rfl | rfl | rfl
    · trivial
    · exact fun hne => absurd rfl hne
    · trivial
  · rw [hlib] at ha
    simp only [Option.isNone_some, Bool.false_eq_true, if_false] at ha
    split at ha
    · rcases List.mem_cons.mp ha with rfl | ha
      · trivial
      · rcases mem_renderFolder buildFolderTree_ascending ha with
          ⟨item, hitem, hrow⟩ | ⟨rel, name, hfind, hact⟩
        · obtain ⟨spec, hspec, rfl⟩ := List.mem_map.mp (all_buildFolderTree.mem_iff.mp hitem)
          exact finds_row (h.ids spec hspec) h.folders hrow
        · exact finds_folder (h.head hfind) (by simpa using hact)
    · obtain ⟨spec, hspec, hrow⟩ := List.mem_flatMap.mp ha
      exact finds_row (h.ids spec (List.mem_of_mem_filter hspec)) h.folders hrow

/-- After every run, whatever failed in it, an action that the panel offers
finds its session and its folder's file in the library; a folder it is to delete
is a top-level folder of the library or lies below one. -/
theorem offered_found {toPath : String → Path} {library : Option (Store Text)}
    {labels : List Label} (hrun : run (step P toPath) (start P library) labels = some s)
    {store : Store Text} (hlib : s.library = some store) {a : PanelAction}
    (ha : a ∈ s.offered P) : Finds store.lib a := by
  have hcovered : s.Covered :=
    Runs.invariant (fun s l t h hstep => step_covered h hstep) (reload_current _).covered hrun
  exact (hcovered store hlib).finds hlib ha

/-- A new session is filled in and saved on a first run. -/
def savedOnce : List Label :=
  [.click (.newSession []) ⟨7⟩,
    .editor { SessionEditor.blank ⟨7⟩ with
      name := "db", folder := "General", host := "db.lan", username := "ann" } .save]

/-- The row of the session saved can delete it. -/
theorem offered_found_saved :
    ∃ (first : Store Document) (s : SessionPanel Document) (store : Store Document),
      Platform.openStore .plain sampleDir (.ok ()) freshDisk = some first ∧
        run (step .plain fun _ => sampleDir) (start .plain (some first)) savedOnce = some s ∧
        s.library = some store ∧ Finds store.lib (.deleteSession ⟨7⟩) := by
  have hopen : (Platform.openStore .plain sampleDir (.ok ()) freshDisk).any (fun first =>
      (run (step .plain fun _ => sampleDir) (start .plain (some first)) savedOnce).any fun s =>
        s.library.isSome && decide (.deleteSession ⟨7⟩ ∈ s.offered .plain)) = true := by
    decide +kernel
  obtain ⟨first, hfirst, hrun⟩ := (Option.any_eq_true _ _).mp hopen
  obtain ⟨s, hs, hshown⟩ := (Option.any_eq_true _ _).mp hrun
  rw [Bool.and_eq_true, decide_eq_true_eq] at hshown
  obtain ⟨store, hstore⟩ := Option.isSome_iff_exists.mp hshown.1
  exact ⟨first, s, store, hfirst, hs, hstore, offered_found hs hstore hshown.2⟩

/-! ## The lists are the library's -/

/-- The call made without a reload, if it fails, leaves the library as it is. -/
def Lands (P : Platform Text) (toPath : String → Path) (s : SessionPanel Text) (l : Label) :
    Prop :=
  ∀ store op, s.library = some store → s.attempts toPath l = some op →
    (store.call P op).1 = .ok () ∨ (store.call P op).2.lib = store.lib

instance (P : Platform Text) (toPath : String → Path) (s : SessionPanel Text) (l : Label) :
    Decidable (s.Lands P toPath l) :=
  match hlib : s.library, hop : s.attempts toPath l with
  | some store, some op =>
      decidable_of_iff ((store.call P op).1 = .ok () ∨ (store.call P op).2.lib = store.lib)
        (by simp [Lands, hlib, hop])
  | none, _ => .isTrue (by simp [Lands, hlib])
  | some _, none => .isTrue (by simp [Lands, hop])

theorem step_current {toPath : String → Path} {l : Label} (h : s.Current P)
    (hlands : s.Lands P toPath l) (hstep : s.step P toPath l = some t) : t.Current P := by
  cases step_moved hstep with
  | reloaded current => exact current
  | kept library sessions folders =>
      intro store hstore
      rw [sessions, folders]
      exact h store (library ▸ hstore)
  | failed store op e made held result library sessions folders =>
      intro store' hstore'
      obtain rfl := Option.some.inj (library.symm.trans hstore')
      rcases hlands store op held made with hok | hsame
      · rw [hok] at result
        cases result
      · rw [sessions, folders, hsame]
        exact h store held

/-- The panel shows the library's own lists after every run in which no save of
the form and no adding of a folder fails having changed the library; and any
other change made from the panel shows them again whatever went before. -/
theorem panel_current {toPath : String → Path} {library : Option (Store Text)}
    {labels : List Label} (hrun : run (step P toPath) (start P library) labels = some s) :
    (Along (step P toPath) (Lands P toPath) (start P library) labels → s.Current P) ∧
      ∀ op, (s.storeOp P op).Current P := by
  refine ⟨fun halong => ?_, storeOp_current s⟩
  exact run_invariant (fun s l t h hlands hstep => step_current h hlands hstep)
    (reload_current _) halong hrun

theorem panel_current_saved :
    ∃ (first : Store Document) (s : SessionPanel Document),
      Platform.openStore .plain sampleDir (.ok ()) freshDisk = some first ∧
        run (step .plain fun _ => sampleDir) (start .plain (some first)) savedOnce = some s ∧
        s.sessions.map (·.name) = ["db"] ∧ s.Current .plain := by
  have hopen : (Platform.openStore .plain sampleDir (.ok ()) freshDisk).any (fun first =>
      decide (Along (step .plain fun _ => sampleDir) (Lands .plain fun _ => sampleDir)
        (start .plain (some first)) savedOnce) &&
      (run (step .plain fun _ => sampleDir) (start .plain (some first)) savedOnce).any fun s =>
        decide (s.sessions.map (·.name) = ["db"])) = true := by
    decide +kernel
  obtain ⟨first, hfirst, hshown⟩ := (Option.any_eq_true _ _).mp hopen
  rw [Bool.and_eq_true, decide_eq_true_eq] at hshown
  obtain ⟨s, hs, hnames⟩ := (Option.any_eq_true _ _).mp hshown.2
  exact ⟨first, s, hfirst, hs, of_decide_eq_true hnames, (panel_current hs).1 hshown.1⟩

end SessionPanel

end PolyTerm.Saved
