import PolyTerm.Reopen

/-!
# What the user did, and what opening makes of it

`open_in` looks at the index and at what the files hold, not at how they came
to be that way: an index without entries gets the default folder, and an empty
folder with the legacy name gets the default one. Both can undo what the user
did. The file settles when they do: `reopen_respects_iff` has the condition,
`reopen_restores_removed` a run for each of the two.
-/

namespace PolyTerm.Saved

open Runs Writes

variable {Text : Type}

/-- What the calls of a run come to: the names and the paths taken out and not
included since, and the folders included and not taken out since. -/
structure History where
  removedNames : List String
  removedPaths : List Path
  added : List IndexEntry
deriving DecidableEq, Repr

def History.none : History := ⟨[], [], []⟩

/-- Record a call that succeeded. -/
def History.record (P : Platform Text) (h : History) (s : Store Text) : LibraryOp → History
  | .addFile name path =>
      match nonBlank name with
      | .some name =>
          let path := s.resolveFilePath P path
          { removedNames := h.removedNames.filter (· ≠ name)
            removedPaths := h.removedPaths.filter (· ≠ path)
            added := ⟨name, path⟩ :: h.added }
      | .none => h
  | .removeTopFolder name =>
      match s.lib.tops.find? fun t => t.name = name with
      | .some t =>
          { removedNames := name :: h.removedNames
            removedPaths := t.path :: h.removedPaths
            added := h.added.filter (·.name ≠ name) }
      | .none => h
  | _ => h

/-- The history of a run. -/
def history (P : Platform Text) : History → Store Text → List LibraryOp → History
  | h, _, [] => h
  | h, s, op :: ops => history P (h.record P s op) (s.call P op).2 ops

/-- An index that is as the user left it: nothing removed is in it, by name or
by path, and what was added has the name it was added with. -/
structure History.Respected (h : History) (entries : List IndexEntry) : Prop where
  names : ∀ e ∈ entries, e.name ∉ h.removedNames
  paths : ∀ e ∈ entries, e.path ∉ h.removedPaths
  added : ∀ e ∈ h.added, e ∈ entries

theorem History.respected_iff {h : History} {entries : List IndexEntry} :
    h.Respected entries ↔
      (∀ e ∈ entries, e.name ∉ h.removedNames) ∧ (∀ e ∈ entries, e.path ∉ h.removedPaths) ∧
        ∀ e ∈ h.added, e ∈ entries :=
  ⟨fun hr => ⟨hr.names, hr.paths, hr.added⟩, fun hr => ⟨hr.1, hr.2.1, hr.2.2⟩⟩

instance (h : History) (entries : List IndexEntry) : Decidable (h.Respected entries) :=
  decidable_of_iff _ History.respected_iff.symm

theorem respected_none (entries : List IndexEntry) : History.none.Respected entries :=
  ⟨fun _ _ => List.not_mem_nil, fun _ _ => List.not_mem_nil,
    List.forall_mem_nil _⟩

namespace Store

open SessionLibrary Platform

variable {P : Platform Text}

/-! ## While the library is open -/

theorem record_of_edits {op : LibraryOp} (hop : op.edits = true) (h : History) (s : Store Text) :
    h.record P s op = h := by
  cases op with
  | addFile name path => cases hop
  | removeTopFolder name => cases hop
  | _ => rfl

theorem respected_added {h : History} {entries : List IndexEntry} (hr : h.Respected entries)
    {name : String} {path : Path} :
    History.Respected
      { removedNames := h.removedNames.filter (· ≠ name)
        removedPaths := h.removedPaths.filter (· ≠ path)
        added := ⟨name, path⟩ :: h.added } (entries ++ [⟨name, path⟩]) where
  names e he hmem := by
    obtain ⟨hold, hne⟩ := List.mem_filter.mp hmem
    rcases List.mem_append.mp he with he | he
    · exact hr.names e he hold
    · obtain rfl := List.mem_singleton.mp he
      simp at hne
  paths e he hmem := by
    obtain ⟨hold, hne⟩ := List.mem_filter.mp hmem
    rcases List.mem_append.mp he with he | he
    · exact hr.paths e he hold
    · obtain rfl := List.mem_singleton.mp he
      simp at hne
  added e he := by
    rcases List.mem_cons.mp he with rfl | he
    · exact List.mem_append_right _ List.mem_cons_self
    · exact List.mem_append_left _ (hr.added e he)

/-- Taking out one of several entries that differ in name and in path. -/
theorem respected_removed {h : History} {entries : List IndexEntry} (hr : h.Respected entries)
    (gone : IndexEntry) {rest : List IndexEntry} (hrest : ∀ e, e ∈ rest ↔ e ∈ entries ∧ e ≠ gone)
    (hnames : ∀ e ∈ entries, e.name = gone.name → e = gone)
    (hpaths : ∀ e ∈ entries, e.path = gone.path → e = gone) :
    History.Respected
      { removedNames := gone.name :: h.removedNames
        removedPaths := gone.path :: h.removedPaths
        added := h.added.filter (·.name ≠ gone.name) } rest where
  names e he hmem := by
    obtain ⟨hold, hne⟩ := (hrest e).mp he
    rcases List.mem_cons.mp hmem with hname | hmem
    · exact hne (hnames e hold hname)
    · exact hr.names e hold hmem
  paths e he hmem := by
    obtain ⟨hold, hne⟩ := (hrest e).mp he
    rcases List.mem_cons.mp hmem with hpath | hmem
    · exact hne (hpaths e hold hpath)
    · exact hr.paths e hold hmem
  added e he := by
    obtain ⟨he, hname⟩ := List.mem_filter.mp he
    refine (hrest e).mpr ⟨hr.added e he, ?_⟩
    rintro rfl
    simp at hname

theorem call_respected {h : History} {s : Store Text} (htidy : Tidy s.lib)
    (hr : h.Respected s.lib.index.entries) {op : LibraryOp} (hok : (s.call P op).1 = .ok ()) :
    (h.record P s op).Respected (s.call P op).2.lib.index.entries := by
  have hcases := call_cases P s op
  generalize s.call P op = res at hcases hok ⊢
  cases hcases with
  | refused op e hwrote => cases hok
  | nothing op hadd hgone =>
      cases op with
      | addFile name path => exact absurd rfl (hadd name path)
      | removeTopFolder name =>
          have hfind : (s.lib.tops.find? fun t => t.name = name) = none := by
            simpa using hgone name rfl
          rw [History.record, hfind]
          exact hr
      | _ => exact hr
  | @edit op hop lib' idxs hedit =>
      have hindex : lib'.index = s.lib.index := congrArg LibraryIndex.mk hedit.entries
      rw [record_of_edits hop]
      exact hindex ▸ hr
  | @added name name' path w pre hname hfresh hwrote hpre =>
      have hentries : (s.lib.include (P.loadTop w.store name' (s.resolveFilePath P path))).index =
          ⟨s.lib.index.entries ++ [⟨name', s.resolveFilePath P path⟩]⟩ := by
        simp [SessionLibrary.include, SessionLibrary.index, TopFolder.entry, loadTop]
      rw [History.record, hname]
      exact hentries ▸ respected_added hr
  | @removed pos t ht =>
      have hmem : t ∈ s.lib.tops := List.mem_of_getElem? ht
      have hfind : (s.lib.tops.find? fun u => u.name = t.name) = some t := by
        cases hu : s.lib.tops.find? fun u => u.name = t.name with
        | none => exact absurd (decide_eq_true rfl) (List.find?_eq_none.mp hu t hmem)
        | some u =>
            have hname : u.name = t.name := by simpa using List.find?_some hu
            rw [htidy.eq_of_name (List.mem_of_find?_eq_some hu) hmem hname]
      have hsame : ∀ u ∈ s.lib.tops, u.entry.name = t.entry.name → u.entry = t.entry :=
        fun u hu hname => congrArg TopFolder.entry (htidy.eq_of_name hu hmem hname)
      rw [History.record, hfind]
      refine respected_removed hr t.entry (fun e => ?_) (fun e he hname => ?_) fun e he hpath => ?_
      · constructor
        · intro he
          obtain ⟨u, hu, rfl⟩ := List.mem_map.mp he
          obtain ⟨hold, hne⟩ := (htidy.mem_eraseIdx ht).mp hu
          exact ⟨List.mem_map_of_mem hold, fun heq => hne (congrArg IndexEntry.name heq)⟩
        · rintro ⟨he, hne⟩
          obtain ⟨u, hu, rfl⟩ := List.mem_map.mp he
          exact List.mem_map_of_mem ((htidy.mem_eraseIdx ht).mpr ⟨hu, fun h => hne (hsame u hu h)⟩)
      · obtain ⟨u, hu, rfl⟩ := List.mem_map.mp he
        exact hsame u hu hname
      · obtain ⟨u, hu, rfl⟩ := List.mem_map.mp he
        exact congrArg TopFolder.entry (htidy.eq_of_path hu hmem hpath)

/-- While the library is open every call respects what was done before. -/
theorem run_respected {h : History} {s u : Store Text} {ops : List LibraryOp}
    (htidy : Tidy s.lib) (hr : h.Respected s.lib.index.entries)
    (hok : Along (step P) (fun v op => (v.call P op).1 = .ok ()) s ops)
    (hrun : run (step P) s ops = some u) :
    Tidy u.lib ∧ u.lib.indexPath = s.lib.indexPath ∧ u.lib.dir = s.lib.dir ∧
      (history P h s ops).Respected u.lib.index.entries := by
  induction ops generalizing h s with
  | nil =>
      obtain rfl := Option.some.inj hrun
      exact ⟨htidy, rfl, rfl, hr⟩
  | cons op ops ih =>
      obtain ⟨v, hv, hrest⟩ := run_cons_eq_some.mp hrun
      obtain rfl : (s.call P op).2 = v := Option.some.inj hv
      obtain ⟨hlast, hpath, hdir, hrespected⟩ := ih (call_tidy P htidy op)
        (call_respected htidy hr hok.1) (hok.2 _ hv) hrest
      exact ⟨hlast, hpath.trans (call_paths P s op).1, hdir.trans (call_paths P s op).2, hrespected⟩

/-! ## When it is opened again -/

/-- Opening renames this folder: no folder has the default name, and this one
has the legacy name and loads empty. -/
def Renamed (P : Platform Text) (u : Store Text) (t : TopFolder) : Prop :=
  (∀ t' ∈ u.lib.tops, t'.name ≠ defaultTopFolder) ∧ t.name = legacyDefaultTopFolder ∧
    (P.loadFile u.world.store t.path).1 = .empty

/-- What `open_in` does of itself undoes nothing in the history. It seeds an
index without entries, and it renames a folder. -/
def Undisturbed (P : Platform Text) (h : History) (u : Store Text) : Prop :=
  (u.lib.tops = [] → defaultTopFolder ∉ h.removedNames ∧
    u.lib.dir.file "sessions.json" ∉ h.removedPaths) ∧
  ∀ t ∈ u.lib.tops, Renamed P u t → defaultTopFolder ∉ h.removedNames ∧ t.entry ∉ h.added

instance (P : Platform Text) (u : Store Text) (t : TopFolder) : Decidable (Renamed P u t) :=
  inferInstanceAs (Decidable (_ ∧ _))

instance (P : Platform Text) (h : History) (u : Store Text) : Decidable (Undisturbed P h u) :=
  inferInstanceAs (Decidable (_ ∧ _))

/-- The index of a library opened again: seeded, the same, or with one folder
renamed. -/
theorem reopened_entries {u v : Store Text} (htidy : Tidy u.lib)
    (hpath : u.lib.indexPath = u.lib.dir.file "library.json") (hindex : IndexHeld P u)
    {made : Except StoreError Unit} {fates : List (Option StoreError)}
    (hagain : P.openStore u.lib.dir made { u.world with fates := fates } = some v) :
    (u.lib.tops = [] ∧
        v.lib.index.entries = [⟨defaultTopFolder, u.lib.dir.file "sessions.json"⟩]) ∨
      (u.lib.tops ≠ [] ∧ (∀ t ∈ u.lib.tops, ¬ Renamed P u t) ∧
        v.lib.index.entries = u.lib.index.entries) ∨
      ∃ before t after, u.lib.tops = before ++ t :: after ∧ Renamed P u t ∧
        v.lib.index.entries = before.map TopFolder.entry ++
          ⟨defaultTopFolder, t.path⟩ :: after.map TopFolder.entry := by
  obtain ⟨index, created, hopens⟩ := openStore_cases hagain
  have hlib := opens_again hopens htidy hpath rfl hindex
  have hreload : ∀ ts : List TopFolder,
      (ts.map (reload P u.world.store)).map TopFolder.entry = ts.map TopFolder.entry := by
    intro ts
    rw [List.map_map]
    rfl
  by_cases htops : u.lib.tops = []
  · left
    rw [if_pos htops, migrate_seeded] at hlib
    rw [hlib]
    exact ⟨htops, rfl⟩
  · right
    rw [if_neg htops] at hlib
    rcases migrate_cases { u.lib with tops := u.lib.tops.map (reload P u.world.store) } with
      ⟨hsame, hsettled⟩ | ⟨before, t, after, hsplit, hlegacy, hnone, hmigrate⟩
    · left
      refine ⟨htops, ?_, ?_⟩
      · rintro t ht ⟨hfree, hname, hempty⟩
        rcases hsettled with ⟨t', ht', hdefault⟩ | hlegacy
        · obtain ⟨t₀, ht₀, rfl⟩ := List.mem_map.mp ht'
          exact hfree t₀ ht₀ hdefault
        · exact hlegacy _ (List.mem_map_of_mem ht) ⟨hname, hempty⟩
      · rw [hlib, hsame]
        exact hreload u.lib.tops
    · right
      obtain ⟨ts, ts', hts, rfl, hrest⟩ := List.map_eq_append_iff.mp hsplit
      obtain ⟨t₀, ts'', rfl, rfl, rfl⟩ := List.map_eq_cons_iff.mp hrest
      refine ⟨ts, t₀, ts'', hts, ⟨fun t' ht' => ?_, hlegacy.1, hlegacy.2⟩, ?_⟩
      · have hfree : (reload P u.world.store t').name ≠ defaultTopFolder :=
          hnone _ (List.mem_map_of_mem ht')
        exact hfree
      · rw [hlib, hmigrate]
        simp only [SessionLibrary.index, List.map_append, List.map_cons, hreload]
        rfl

/-- The seed is respected exactly if it was not taken out. -/
theorem respected_seed_iff {h : History} (hadded : h.added = []) {e : IndexEntry} :
    h.Respected [e] ↔ e.name ∉ h.removedNames ∧ e.path ∉ h.removedPaths := by
  constructor
  · intro hr
    exact ⟨hr.names e List.mem_cons_self, hr.paths e List.mem_cons_self⟩
  · rintro ⟨hname, hpath⟩
    refine ⟨fun e' he => ?_, fun e' he => ?_, ?_⟩
    · obtain rfl := List.mem_singleton.mp he
      exact hname
    · obtain rfl := List.mem_singleton.mp he
      exact hpath
    · rw [hadded]
      exact List.forall_mem_nil _

/-- A rename is respected exactly if the new name was not taken out and the
folder was not included by the user. -/
theorem respected_renamed_iff {h : History} {before after : List IndexEntry} {old : IndexEntry}
    {name : String} (hr : h.Respected (before ++ old :: after))
    (hpaths : ((before ++ old :: after).map (·.path)).Nodup) (hname : old.name ≠ name) :
    h.Respected (before ++ ⟨name, old.path⟩ :: after) ↔ name ∉ h.removedNames ∧ old ∉ h.added := by
  have hmem : ∀ {e new}, e ∈ before ++ new :: after ↔ (e ∈ before ∨ e ∈ after) ∨ e = new := by
    intro e new
    simp only [List.mem_append, List.mem_cons]
    tauto
  have hother : ∀ e, e ∈ before ∨ e ∈ after → e.path ≠ old.path := by
    intro e he hpath
    rw [List.map_append, List.map_cons] at hpaths
    refine (List.nodup_cons.mp (List.nodup_middle.mp hpaths)).1 ?_
    rw [← List.map_append, ← hpath]
    exact List.mem_map_of_mem (List.mem_append.mpr he)
  constructor
  · intro hnew
    refine ⟨hnew.names _ (hmem.mpr (.inr rfl)), fun hadded => ?_⟩
    rcases hmem.mp (hnew.added old hadded) with he | heq
    · exact hother old he rfl
    · exact hname (congrArg IndexEntry.name heq)
  · rintro ⟨hremoved, hadded⟩
    refine ⟨fun e he => ?_, fun e he => ?_, fun e he => ?_⟩
    · rcases hmem.mp he with he | rfl
      · exact hr.names e (hmem.mpr (.inl he))
      · exact hremoved
    · rcases hmem.mp he with he | rfl
      · exact hr.paths e (hmem.mpr (.inl he))
      · exact hr.paths old (hmem.mpr (.inr rfl))
    · rcases hmem.mp (hr.added e he) with hold | rfl
      · exact hmem.mpr (.inl hold)
      · exact absurd he hadded

/-! ## The index file at the end of a run -/

/-- The index file holds the tree's index, or sessions that were saved over
it. -/
def IndexOrSessions (P : Platform Text) (s : Store Text) : Prop :=
  IndexHeld P s ∨
    ∃ data, s.world.store (P.fileOf s.lib.indexPath) = .file (P.encodeSessions data)

theorem IndexOrSessions.wrote {s t : Store Text} {done : List (FileId × Entry Text)}
    (h : IndexOrSessions P s) (hpath : t.lib.indexPath = s.lib.indexPath)
    (hindex : t.lib.index = s.lib.index) (hwrote : Medium.Wrote s.world t.world done)
    (hdone : ∀ wr ∈ done, ∃ data, wr.2 = .file (P.encodeSessions data)) :
    IndexOrSessions P t := by
  rcases apply_mem_or s.world.store done (P.fileOf s.lib.indexPath) with hmem | ⟨hkeep, -⟩
  · obtain ⟨data, hdata⟩ := hdone _ hmem
    refine .inr ⟨data, ?_⟩
    rw [hpath, hwrote.store]
    exact hdata
  · unfold IndexOrSessions IndexHeld
    rw [hpath, hindex, hwrote.store, hkeep]
    exact h

theorem opened_indexOrSessions {dir : Path} {w : World Text} {s : Store Text}
    {index : LibraryIndex} {created : List (FileId × Entry Text)}
    (h : P.Opens dir w s index created) : IndexOrSessions P s := by
  have hstore : s.world.store = apply (Function.update w.store (P.fileOf s.lib.indexPath)
      (.file (P.encodeIndex s.lib.index))) created := h.wrote.store
  unfold IndexOrSessions IndexHeld
  rw [hstore]
  rcases apply_mem_or (Function.update w.store (P.fileOf s.lib.indexPath)
    (.file (P.encodeIndex s.lib.index))) created (P.fileOf s.lib.indexPath) with hmem | ⟨hkeep, -⟩
  · obtain ⟨t, -, -, hwr⟩ := h.created _ hmem
    exact .inr ⟨t.data, congrArg Prod.snd hwr⟩
  · exact .inl (hkeep.trans (Function.update_self ..))

theorem call_indexOrSessions {s : Store Text} (h : IndexOrSessions P s) {op : LibraryOp}
    (hok : (s.call P op).1 = .ok ()) : IndexOrSessions P (s.call P op).2 := by
  have hcases := call_cases P s op
  generalize s.call P op = res at hcases hok ⊢
  cases hcases with
  | refused op e hwrote => cases hok
  | nothing op _ _ => exact h
  | edit hop hedit =>
      refine h.wrote hedit.indexPath (congrArg LibraryIndex.mk hedit.entries) (save_ok hok)
        fun wr hwr => ?_
      obtain ⟨i, -, t, -, rfl⟩ := mem_topWrites.mp hwr
      exact ⟨t.data, rfl⟩
  | added _ _ _ _ => exact .inl (indexHeld_saveIndex hok)
  | removed _ => exact .inl (indexHeld_saveIndex hok)

theorem run_indexOrSessions {s u : Store Text} {ops : List LibraryOp} (h : IndexOrSessions P s)
    (hok : Along (step P) (fun v op => (v.call P op).1 = .ok ()) s ops)
    (hrun : run (step P) s ops = some u) : IndexOrSessions P u := by
  refine run_invariant (fun v op v' hv hop hstep => ?_) h hok hrun
  obtain rfl : (v.call P op).2 = v' := Option.some.inj hstep
  exact call_indexOrSessions hv hop

/-- Where the library opens again, its index file held the index: sessions do
not parse as one, `entries` being a required field. -/
theorem indexHeld_of_reopened {u v : Store Text} {made : Except StoreError Unit}
    {fates : List (Option StoreError)}
    (hsessions : ∀ data, ∃ e, P.decodeIndex (P.encodeSessions data) = .error e)
    (h : IndexOrSessions P u) (hpath : u.lib.indexPath = u.lib.dir.file "library.json")
    (hagain : P.openStore u.lib.dir made { u.world with fates := fates } = some v) :
    IndexHeld P u := by
  rcases h with h | ⟨data, hdata⟩
  · exact h
  · obtain ⟨index, created, hopens⟩ := openStore_cases hagain
    obtain ⟨e, he⟩ := hsessions data
    have hread := hopens.read
    rw [hpath] at hdata
    simp only [readIndex, hdata, Entry.exists, Entry.read, he] at hread
    cases hread

/-- The library as the user left it is what the next opening shows, exactly if
neither the seed nor the rename undoes anything. Sessions do not parse as an
index, so a library that opens has not lost its index to a session file. -/
theorem reopen_respects_iff {dir : Path} {made made' : Except StoreError Unit} {w : World Text}
    {s u v : Store Text} {ops : List LibraryOp} {fates : List (Option StoreError)}
    (hsessions : ∀ data, ∃ e, P.decodeIndex (P.encodeSessions data) = .error e)
    (hopen : P.openStore dir made w = some s)
    (hok : Along (step P) (fun v op => (v.call P op).1 = .ok ()) s ops)
    (hrun : run (step P) s ops = some u)
    (hagain : P.openStore dir made' { u.world with fates := fates } = some v) :
    (history P .none s ops).Respected v.lib.index.entries ↔
      Undisturbed P (history P .none s ops) u := by
  obtain ⟨index, created, hopens⟩ := openStore_cases hopen
  obtain ⟨htidy, hpath, hdir, hr⟩ :=
    run_respected hopens.fits.tidy (respected_none s.lib.index.entries) hok hrun
  rw [hopens.fits.dir] at hdir
  rw [hopens.fits.indexPath, ← hdir] at hpath
  subst hdir
  have hindex := indexHeld_of_reopened hsessions
    (run_indexOrSessions (opened_indexOrSessions hopens) hok hrun) hpath hagain
  generalize history P .none s ops = h at hr ⊢
  have hentries : u.lib.index.entries = u.lib.tops.map TopFolder.entry := rfl
  rcases reopened_entries htidy hpath hindex hagain with
    ⟨htops, heq⟩ | ⟨htops, hnone, heq⟩ | ⟨before, t, after, hsplit, hrenamed, heq⟩
  · rw [heq]
    have hadded : h.added = [] := by
      rw [List.eq_nil_iff_forall_not_mem]
      intro e he
      have hmem := hr.added e he
      rw [hentries, htops] at hmem
      exact List.not_mem_nil hmem
    rw [respected_seed_iff hadded]
    constructor
    · intro hkept
      refine ⟨fun _ => hkept, fun t ht => ?_⟩
      rw [htops] at ht
      exact absurd ht List.not_mem_nil
    · exact fun hundisturbed => hundisturbed.1 htops
  · rw [heq]
    exact ⟨fun _ => ⟨fun h => absurd h htops, fun t ht hre => absurd hre (hnone t ht)⟩, fun _ => hr⟩
  · have hold : u.lib.index.entries =
        before.map TopFolder.entry ++ t.entry :: after.map TopFolder.entry := by
      rw [hentries, hsplit, List.map_append, List.map_cons]
    have ht : t ∈ u.lib.tops := hsplit ▸ List.mem_append_right _ List.mem_cons_self
    have hpaths : ((before.map TopFolder.entry ++ t.entry :: after.map TopFolder.entry).map
        (·.path)).Nodup := by
      rw [← hold, hentries, List.map_map]
      exact htidy.paths
    have hname : t.entry.name ≠ defaultTopFolder := hrenamed.1 t ht
    rw [heq]
    refine (respected_renamed_iff (hold ▸ hr) hpaths hname).trans ?_
    constructor
    · intro hkept
      refine ⟨fun htops => ?_, fun t' ht' hre => ?_⟩
      · rw [htops] at ht
        exact absurd ht List.not_mem_nil
      · -- only one folder has the legacy name
        obtain rfl := htidy.eq_of_name ht' ht (hre.2.1.trans hrenamed.2.1.symm)
        exact hkept
    · exact fun hundisturbed => hundisturbed.2 t ht hrenamed

/-- The default folder is taken out, and another one is left. -/
def replaceDefault : List LibraryOp :=
  [.addFile "Work" ⟨false, [.normal "work.json"]⟩, .removeTopFolder "General"]

theorem reopen_respects_iff_work :
    ∃ s u v, Platform.openStore .plain sampleDir (.ok ()) freshDisk = some s ∧
      run (step .plain) s replaceDefault = some u ∧
      Platform.openStore .plain sampleDir (.ok ()) { u.world with fates := [] } = some v ∧
      (history .plain .none s replaceDefault).Respected v.lib.index.entries := by
  have hopen : (Platform.openStore .plain sampleDir (.ok ()) freshDisk).any (fun s =>
      (run (step .plain) s replaceDefault).any fun u =>
        (Platform.openStore .plain sampleDir (.ok ()) { u.world with fates := [] }).isSome &&
        decide (Along (step .plain) (fun v op => (v.call .plain op).1 = .ok ()) s replaceDefault ∧
          Undisturbed .plain (history .plain .none s replaceDefault) u)) = true := by
    decide +kernel
  obtain ⟨s, hs, hrun⟩ := (Option.any_eq_true _ _).mp hopen
  obtain ⟨u, hu, hboth⟩ := (Option.any_eq_true _ _).mp hrun
  obtain ⟨hagain, hsetup⟩ := (Bool.and_eq_true _ _).mp hboth
  obtain ⟨v, hv⟩ := Option.isSome_iff_exists.mp hagain
  obtain ⟨hok, hundisturbed⟩ := of_decide_eq_true hsetup
  have hrespects := reopen_respects_iff (P := .plain) (fun _ => ⟨_, rfl⟩) hs hok hu hv
  exact ⟨s, u, v, hs, hu, hv, hrespects.mpr hundisturbed⟩

/-- The default folder is taken out, and a new one gets the legacy name. -/
def renamedCalls : List LibraryOp :=
  [.removeTopFolder "General", .addFile "Sessions" ⟨false, [.normal "mine.json"]⟩]

/-- From a first run, every call succeeding: the last folder is taken out and
comes back; a new folder that the user calls "Sessions" comes back as "General". -/
theorem reopen_restores_removed :
    (∃ s u v, Platform.openStore .plain sampleDir (.ok ()) freshDisk = some s ∧
      Along (step .plain) (fun v op => (v.call .plain op).1 = .ok ()) s
        [.removeTopFolder "General"] ∧
      run (step .plain) s [.removeTopFolder "General"] = some u ∧ u.lib.tops = [] ∧
      Platform.openStore .plain sampleDir (.ok ()) u.world = some v ∧
      v.lib.topFolders = s.lib.topFolders ∧
      ¬ (history .plain .none s [.removeTopFolder "General"]).Respected v.lib.index.entries) ∧
    ∃ s u v, Platform.openStore .plain sampleDir (.ok ()) freshDisk = some s ∧
      Along (step .plain) (fun v op => (v.call .plain op).1 = .ok ()) s renamedCalls ∧
      run (step .plain) s renamedCalls = some u ∧ u.lib.topFolderNames = ["Sessions"] ∧
      Platform.openStore .plain sampleDir (.ok ()) u.world = some v ∧
      v.lib.topFolderNames = ["General"] := by
  constructor
  · have hopen : (Platform.openStore .plain sampleDir (.ok ()) freshDisk).any (fun s =>
        (run (step .plain) s [.removeTopFolder "General"]).any fun u =>
          (Platform.openStore .plain sampleDir (.ok ()) u.world).any fun v =>
            decide (Along (step .plain) (fun v op => (v.call .plain op).1 = .ok ()) s
                [.removeTopFolder "General"] ∧
              u.lib.tops = [] ∧ v.lib.topFolders = s.lib.topFolders ∧
              ¬ (history .plain .none s [.removeTopFolder "General"]).Respected
                v.lib.index.entries)) = true := by
      decide +kernel
    obtain ⟨s, hs, hrun⟩ := (Option.any_eq_true _ _).mp hopen
    obtain ⟨u, hu, hagain⟩ := (Option.any_eq_true _ _).mp hrun
    obtain ⟨v, hv, hback⟩ := (Option.any_eq_true _ _).mp hagain
    obtain ⟨hok, htops, hsame, hnot⟩ := of_decide_eq_true hback
    exact ⟨s, u, v, hs, hok, hu, htops, hv, hsame, hnot⟩
  · have hopen : (Platform.openStore .plain sampleDir (.ok ()) freshDisk).any (fun s =>
        (run (step .plain) s renamedCalls).any fun u =>
          (Platform.openStore .plain sampleDir (.ok ()) u.world).any fun v =>
            decide (Along (step .plain) (fun v op => (v.call .plain op).1 = .ok ()) s
                renamedCalls ∧
              u.lib.topFolderNames = ["Sessions"] ∧
              v.lib.topFolderNames = ["General"])) = true := by
      decide +kernel
    obtain ⟨s, hs, hrun⟩ := (Option.any_eq_true _ _).mp hopen
    obtain ⟨u, hu, hagain⟩ := (Option.any_eq_true _ _).mp hrun
    obtain ⟨v, hv, hback⟩ := (Option.any_eq_true _ _).mp hagain
    obtain ⟨hok, hname, hname'⟩ := of_decide_eq_true hback
    exact ⟨s, u, v, hs, hok, hu, hname, hv, hname'⟩

end Store

end PolyTerm.Saved
