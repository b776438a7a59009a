import PolyTerm.Startup
import PolyTerm.TileReference

/-!
# What a saved layout brings back

Restoring a saved layout reopens the pane of one leaf after the other and
drops the leaves whose session does not come back. Which of them come back is
decided by the sources alone (`comesBack`), so the order in which the tables
are iterated plays no role: the saved layout may be read with its tables in
another order (`Reread`). The invariant of the loop (`Reopening`) is stated
with the leaves still to come, and says of the others that their instances are
there if and only if they came back.
-/

namespace PolyTerm

open Forest Tiles

/-- The saved layout, with its tables in another order perhaps. -/
structure PersistedLayout.Reread (saved read : PersistedLayout) : Prop where
  root : read.tree.root = saved.tree.root
  tiles : ∀ id, read.tree.tiles.lookup id = saved.tree.tiles.lookup id
  sources : read.sources.Perm saved.sources
  focused : read.focused = saved.focused

theorem PersistedLayout.Reread.sound {saved read : PersistedLayout} (h : saved.Reread read)
    (hsound : saved.tree.Sound) : read.tree.Sound := by
  refine hsound.of_arena h.root ?_
  funext id
  rw [arena, arena, h.tiles]

/-! ## The loop -/

namespace App

variable {lib : TileLib} {env : Env} {app : App}

/-- Only the leaf's own pane is closed with it. -/
theorem mem_closed_leaf (hlib : lib.Lawful) (h : app.tree.Sound) {tile : TileId}
    {inst s : SessionId} (hpane : app.tree.tiles.lookup tile = some (.pane inst)) :
    s ∈ (lib.removeRecursively app.tree tile).1.filterMap Tile.session ↔ s = inst := by
  rw [List.mem_filterMap]
  constructor
  · rintro ⟨t, ht, hs⟩
    obtain ⟨a, hbelow, ha⟩ := (hlib.removed h.loose).mp ht
    obtain rfl := below_childless (children_leaf (arena_leaf.mpr hpane)) hbelow
    rw [hpane] at ha
    obtain rfl := Option.some.inj ha
    exact (Option.some.inj hs).symm
  · rintro rfl
    exact ⟨.pane s, (hlib.removed h.loose).mpr ⟨tile, .refl, hpane⟩, rfl⟩

/-- Closing the leaf of an instance that is not open closes nothing else. -/
theorem closeTile_leaf (hlib : lib.Lawful) (h : app.tree.Sound) {tile : TileId} {inst : SessionId}
    (hpane : app.tree.tiles.lookup tile = some (.pane inst)) (hlive : inst ∉ app.live)
    (hsources : inst ∉ app.sources) :
    (∀ {s}, s ∈ (app.closeTile lib tile).live ↔ s ∈ app.live) ∧
      ∀ {s}, (app.closeTile lib tile).sources.lookup s = app.sources.lookup s := by
  have hclosed := fun {s} => mem_closed_leaf (s := s) hlib h hpane
  constructor
  · intro s
    rw [closeTile, Table.mem_foldl_erase, hclosed]
    refine and_iff_left_of_imp fun hs heq => hlive ?_
    rwa [← heq]
  · intro s
    by_cases hs : s = inst
    · subst hs
      rw [AList.lookup_eq_none.mpr hsources, AList.lookup_eq_none, closeTile,
        Table.mem_foldl_erase]
      exact fun hmem => hsources hmem.1
    · exact Table.lookup_foldl_erase fun hmem => hs (hclosed.mp hmem)

/-- The saved tree with all its leaves but `leaves` reopened or dropped. -/
structure Reopening (env : Env) (saved : Tree) (sources : Table SessionId PaneSource)
    (leaves : List (TileId × SessionId)) (app : App) (any : Bool) : Prop where
  sound : app.tree.Sound
  pane : ∀ {a s}, app.tree.tiles.lookup a = some (.pane s) ↔
    saved.tiles.lookup a = some (.pane s) ∧ ((a, s) ∈ leaves ∨ comesBack env sources s = true)
  source : ∀ {s source}, app.sources.lookup s = some source ↔
    (∃ a, saved.tiles.lookup a = some (.pane s) ∧ (a, s) ∉ leaves) ∧
      sources.lookup s = some source ∧ env.reopens s source = true
  live : ∀ {s}, s ∈ app.live ↔ s ∈ app.sources
  any : any = true ↔ ∃ s, s ∈ app.sources
  multiExec : app.multiExec = []

section

variable {saved : Tree} {sources : Table SessionId PaneSource} {leaf : TileId × SessionId}
  {leaves : List (TileId × SessionId)} {any : Bool}

/-- What is asked of a leaf once it is done, for an instance other than its
own. -/
theorem done_other {s : SessionId} (hs : s ≠ leaf.2) :
    (∃ a, saved.tiles.lookup a = some (.pane s) ∧ (a, s) ∉ leaf :: leaves) ↔
      ∃ a, saved.tiles.lookup a = some (.pane s) ∧ (a, s) ∉ leaves := by
  refine exists_congr fun a => and_congr_right fun _ => ?_
  have hne : (a, s) ≠ leaf := fun heq => hs (congrArg Prod.snd heq)
  simp [hne]

theorem Reopening.opened (h : Reopening env saved sources (leaf :: leaves) app any)
    (hleaf : saved.tiles.lookup leaf.1 = some (.pane leaf.2)) (hnew : leaf ∉ leaves)
    {source : PaneSource} (hsource : sources.lookup leaf.2 = some source)
    (hreopens : env.reopens leaf.2 source = true) (onExit : ExitAction) (err : Option String) :
    Reopening env saved sources leaves
      { app with
        live := app.live.insert leaf.2 (.new onExit)
        sources := app.sources.insert leaf.2 source
        lastError := err } true := by
  have hback : comesBack env sources leaf.2 = true := comesBack_iff.mpr ⟨source, hsource, hreopens⟩
  constructor
  case sound => exact h.sound
  case pane =>
    intro a s
    refine h.pane.trans (and_congr_right fun _ => ?_)
    rw [List.mem_cons]
    constructor
    · rintro ((rfl | hmem) | hother)
      · exact Or.inr hback
      · exact Or.inl hmem
      · exact Or.inr hother
    · rintro (hmem | hother)
      · exact Or.inl (Or.inr hmem)
      · exact Or.inr hother
  case source =>
    intro s source'
    rw [Table.lookup_insert_ite]
    split
    · rename_i hs
      subst hs
      rw [hsource, Option.some.injEq]
      constructor
      · rintro rfl
        exact ⟨⟨leaf.1, hleaf, hnew⟩, rfl, hreopens⟩
      · intro hdone
        exact hdone.2.1
    · rename_i hs
      rw [h.source, done_other hs]
  case live =>
    intro s
    rw [AList.mem_insert, AList.mem_insert, h.live]
  case any => exact iff_of_true rfl ⟨leaf.2, (AList.mem_insert _).mpr (Or.inl rfl)⟩
  case multiExec => exact h.multiExec

theorem Reopening.dropped (hlib : lib.Lawful)
    (h : Reopening env saved sources (leaf :: leaves) app any)
    (hleaf : saved.tiles.lookup leaf.1 = some (.pane leaf.2)) (hnew : leaf ∉ leaves)
    (hgone : comesBack env sources leaf.2 = false) :
    Reopening env saved sources leaves (app.closeTile lib leaf.1) any := by
  have hpane : app.tree.tiles.lookup leaf.1 = some (.pane leaf.2) :=
    h.pane.mpr ⟨hleaf, Or.inl List.mem_cons_self⟩
  have hcut : Cut app.tree (app.closeTile lib leaf.1).tree leaf.1 := hlib.cut h.sound.loose leaf.1
  have hnosource : leaf.2 ∉ app.sources := by
    intro hmem
    obtain ⟨source, hsource⟩ := Table.mem_iff.mp hmem
    rw [comesBack_iff.mpr ⟨source, (h.source.mp hsource).2⟩] at hgone
    cases hgone
  obtain ⟨hlive, hsources⟩ :=
    closeTile_leaf hlib h.sound hpane (fun hmem => hnosource (h.live.mp hmem)) hnosource
  have hmem : ∀ {s}, s ∈ (app.closeTile lib leaf.1).sources ↔ s ∈ app.sources := by
    intro s
    rw [Table.mem_iff, Table.mem_iff, hsources]
  constructor
  case sound => exact hcut.sound h.sound
  case pane =>
    intro a s
    have hbelow : Below app.tree.tiles.arena leaf.1 a ↔ a = leaf.1 :=
      ⟨below_childless (children_leaf (arena_leaf.mpr hpane)), fun heq => heq ▸ .refl⟩
    rw [hcut.pane, hbelow, h.pane, List.mem_cons]
    constructor
    · rintro ⟨hne, hsaved, (rfl | hmem) | hback⟩
      · exact absurd rfl hne
      · exact ⟨hsaved, Or.inl hmem⟩
      · exact ⟨hsaved, Or.inr hback⟩
    · rintro ⟨hsaved, hkept⟩
      refine ⟨?_, hsaved, hkept.imp_left Or.inr⟩
      rintro rfl
      obtain rfl : leaf.2 = s := Tile.pane.inj (Option.some.inj (hleaf.symm.trans hsaved))
      rcases hkept with hmem | hback
      · exact hnew hmem
      · rw [hgone] at hback
        cases hback
  case source =>
    intro s source
    rw [hsources]
    by_cases hs : s = leaf.2
    · subst hs
      have hnot : ¬(sources.lookup leaf.2 = some source ∧ env.reopens leaf.2 source = true) := by
        intro hback
        rw [comesBack_iff.mpr ⟨source, hback⟩] at hgone
        cases hgone
      rw [AList.lookup_eq_none.mpr hnosource]
      exact iff_of_false (Option.some_ne_none source).symm fun hdone => hnot hdone.2
    · rw [h.source, done_other hs]
  case live =>
    intro s
    rw [hmem, hlive, h.live]
  case any =>
    rw [h.any]
    exact exists_congr fun s => hmem.symm
  case multiExec => exact h.multiExec

theorem restoreLeaf_reopening (hlib : lib.Lawful)
    (h : Reopening env saved sources (leaf :: leaves) app any)
    (hleaf : saved.tiles.lookup leaf.1 = some (.pane leaf.2)) (hnew : leaf ∉ leaves) :
    Reopening env saved sources leaves (restoreLeaf lib env sources (app, any) leaf).1
      (restoreLeaf lib env sources (app, any) leaf).2 := by
  rcases restoreLeaf_cases lib env sources app any leaf with
    ⟨source, onExit, hsource, hreopens, heq⟩ | ⟨hgone, err, heq⟩
  · rw [heq]
    exact h.opened hleaf hnew hsource hreopens onExit none
  · have hsame : Reopening env saved sources (leaf :: leaves) { app with lastError := err } any :=
      ⟨h.sound, h.pane, h.source, h.live, h.any, h.multiExec⟩
    rw [heq]
    exact hsame.dropped hlib hleaf hnew hgone

theorem foldl_reopening (hlib : lib.Lawful) :
    ∀ {leaves : List (TileId × SessionId)} {app : App} {any : Bool},
      (∀ e ∈ leaves, saved.tiles.lookup e.1 = some (.pane e.2)) → leaves.Nodup →
      Reopening env saved sources leaves app any →
        Reopening env saved sources [] (leaves.foldl (restoreLeaf lib env sources) (app, any)).1
          (leaves.foldl (restoreLeaf lib env sources) (app, any)).2
  | [], _, _, _, _, h => h
  | leaf :: leaves, app, any, hsaved, hnodup, h => by
      obtain ⟨hnew, hnodup⟩ := List.nodup_cons.mp hnodup
      rw [List.foldl_cons]
      exact foldl_reopening hlib (fun e he => hsaved e (List.mem_cons_of_mem _ he)) hnodup
        (restoreLeaf_reopening hlib h (hsaved leaf List.mem_cons_self) hnew)

theorem mem_leavesOf_iff {tree : Tree} {a : TileId} {s : SessionId} :
    (a, s) ∈ leavesOf tree ↔ tree.tiles.lookup a = some (.pane s) := by
  refine ⟨fun he => mem_leavesOf he, fun ha => List.mem_filterMap.mpr ⟨⟨a, .pane s⟩, ?_, rfl⟩⟩
  exact AList.mem_lookup_iff.mp ha

theorem reopening_start (hsound : saved.Sound) (minted : Nat) (restoreEnabled openShell : Bool) :
    Reopening env saved sources (leavesOf saved)
      { empty minted restoreEnabled openShell with tree := saved } false := by
  have hnone : ∀ s, s ∉ (empty minted restoreEnabled openShell).sources :=
    fun s => AList.notMem_empty s
  constructor
  case sound => exact hsound
  case pane =>
    intro a s
    rw [mem_leavesOf_iff]
    exact ⟨fun ha => ⟨ha, Or.inl ha⟩, fun ha => ha.1⟩
  case source =>
    intro s source
    rw [AList.lookup_eq_none.mpr (hnone s)]
    refine iff_of_false (Option.some_ne_none source).symm ?_
    rintro ⟨⟨a, ha, hnot⟩, -⟩
    exact hnot (mem_leavesOf_iff.mpr ha)
  case live => exact Iff.rfl
  case any =>
    refine iff_of_false Bool.false_ne_true ?_
    rintro ⟨s, hs⟩
    exact hnone s hs
  case multiExec => rfl

/-- With no leaf left, the panes are those that came back. -/
theorem Reopening.pane_done (h : Reopening env saved sources [] app any) {a : TileId}
    {s : SessionId} : app.tree.tiles.lookup a = some (.pane s) ↔
      saved.tiles.lookup a = some (.pane s) ∧ comesBack env sources s = true := by
  rw [h.pane]
  simp

theorem Reopening.sources_done (h : Reopening env saved sources [] app any)
    (hpanes : ∀ s ∈ sources, saved.HasPane s) {s : SessionId} :
    s ∈ app.sources ↔ comesBack env sources s = true := by
  rw [Table.mem_iff, comesBack_iff]
  refine exists_congr fun source => h.source.trans (and_iff_right_of_imp fun hback => ?_)
  obtain ⟨a, ha⟩ := hpanes s (Table.mem_of_lookup hback.1)
  exact ⟨a, ha, List.not_mem_nil⟩

end

/-! ## Restoring -/

/-- The sources read back are those that were saved. -/
theorem reread_sources {saved : App} {read : PersistedLayout} (hread : saved.layout.Reread read)
    (s : SessionId) :
    (read.sources.foldl (fun sources e => sources.insert e.1 e.2)
      (∅ : Table SessionId PaneSource)).lookup s = saved.sources.lookup s := by
  have hkeys : (saved.layout.sources.map Prod.fst).Nodup := by
    rw [layout, List.map_map]
    exact saved.sources.keys_nodup
  have hnone : (∅ : Table SessionId PaneSource).lookup s = none := rfl
  have hmem : ∀ source, (s, source) ∈ saved.layout.sources ↔
      (⟨s, source⟩ : Σ _ : SessionId, PaneSource) ∈ saved.sources.entries := by
    intro source
    simp [layout]
  ext source
  rw [Table.lookup_foldl_insert ((hread.sources.map Prod.fst).nodup_iff.mpr hkeys),
    hread.sources.mem_iff, hnone, hmem, ← AList.mem_lookup_iff]
  simp

/-- What a restored app has of the app that was saved. -/
structure Restored (env : Env) (saved app : App) (any : Bool) : Prop where
  sound : app.tree.Sound
  pane : ∀ {a s}, app.tree.tiles.lookup a = some (.pane s) ↔
    saved.tree.tiles.lookup a = some (.pane s) ∧ comesBack env saved.sources s = true
  hasPane : ∀ {s}, app.tree.HasPane s ↔ comesBack env saved.sources s = true
  live : ∀ {s}, s ∈ app.live ↔ comesBack env saved.sources s = true
  sources : ∀ {s}, s ∈ app.sources ↔ comesBack env saved.sources s = true
  source : ∀ {s}, s ∈ app.sources → app.sources.lookup s = saved.sources.lookup s
  multiExec : app.multiExec = []
  focused : ∀ {t}, app.focused = some t → app.tree.tiles.isPane t = true
  focus : ∀ {t s}, saved.focused = some t → saved.tree.tiles.lookup t = some (.pane s) →
    comesBack env saved.sources s = true → app.focused = some t
  any : any = true ↔ ∃ s, comesBack env saved.sources s = true

/-- A layout restored into a fresh app brings back exactly the panes whose
sessions open. -/
theorem restore_exact (hlib : lib.Lawful) (env : Env) {saved : App} (hsound : saved.tree.Sound)
    (hpanes : ∀ s ∈ saved.sources, saved.tree.HasPane s) {read : PersistedLayout}
    (hread : saved.layout.Reread read) (minted : Nat) (restoreEnabled openShell : Bool) :
    Restored env saved ((empty minted restoreEnabled openShell).restore lib env read).1
      ((empty minted restoreEnabled openShell).restore lib env read).2 := by
  let sources : Table SessionId PaneSource :=
    read.sources.foldl (fun sources e => sources.insert e.1 e.2) ∅
  let start : App := { empty minted restoreEnabled openShell with tree := read.tree }
  let done : App × Bool :=
    (leavesOf read.tree).foldl (restoreLeaf lib env sources) (start, false)
  have hdone : Reopening env read.tree sources [] done.1 done.2 :=
    foldl_reopening hlib (fun _ he => mem_leavesOf he) (leavesOf_nodup read.tree).of_map
      (reopening_start (hread.sound hsound) minted restoreEnabled openShell)
  have hrestore : (empty minted restoreEnabled openShell).restore lib env read =
      (validateFocus lib { done.1 with focused := read.focused }, done.2) := rfl
  obtain ⟨htree, hlive, hsources', -⟩ :=
    validateFocus_tree lib { done.1 with focused := read.focused }
  -- what was read back is what was saved
  have hsources : ∀ s, sources.lookup s = saved.sources.lookup s := reread_sources hread
  have htiles : ∀ a, read.tree.tiles.lookup a = saved.tree.tiles.lookup a := hread.tiles
  have hback : ∀ s, comesBack env sources s = comesBack env saved.sources s := by
    intro s
    rw [comesBack, comesBack, hsources]
  have hhoused : ∀ s ∈ sources, read.tree.HasPane s := by
    intro s hs
    obtain ⟨source, hsource⟩ := Table.mem_iff.mp hs
    rw [hsources] at hsource
    obtain ⟨a, ha⟩ := hpanes s (Table.mem_of_lookup hsource)
    exact ⟨a, (htiles a).trans ha⟩
  have hpane : ∀ {a s}, done.1.tree.tiles.lookup a = some (.pane s) ↔
      saved.tree.tiles.lookup a = some (.pane s) ∧ comesBack env saved.sources s = true := by
    intro a s
    rw [hdone.pane_done, htiles, hback]
  have hsource : ∀ {s}, s ∈ done.1.sources ↔ comesBack env saved.sources s = true := by
    intro s
    rw [hdone.sources_done hhoused, hback]
  rw [hrestore]
  constructor
  case sound =>
    rw [htree]
    exact hdone.sound
  case pane =>
    intro a s
    rw [htree]
    exact hpane
  case hasPane =>
    intro s
    rw [htree]
    constructor
    · rintro ⟨a, ha⟩
      exact (hpane.mp ha).2
    · intro hs
      obtain ⟨source, hsource, -⟩ := comesBack_iff.mp hs
      obtain ⟨a, ha⟩ := hpanes s (Table.mem_of_lookup hsource)
      exact ⟨a, hpane.mpr ⟨ha, hs⟩⟩
  case live =>
    intro s
    rw [hlive]
    exact hdone.live.trans hsource
  case sources =>
    intro s
    rw [hsources']
    exact hsource
  case source =>
    intro s hs
    rw [hsources'] at hs ⊢
    obtain ⟨source, hlookup⟩ := Table.mem_iff.mp hs
    rw [hlookup, ← hsources]
    exact (hdone.source.mp hlookup).2.1.symm
  case multiExec =>
    rw [validateFocus]
    split <;> exact hdone.multiExec
  case focused =>
    intro t ht
    rw [htree]
    exact validateFocus_focused ht
  case focus =>
    intro t s ht hs hopens
    have hfocused : read.focused = some t := hread.focused.trans ht
    have hstill : done.1.tree.tiles.isPane t = true :=
      Option.isSome_iff_exists.mpr ⟨s, getPane_eq_some.mpr (hpane.mpr ⟨hs, hopens⟩)⟩
    rw [validateFocus, if_pos (by rw [hfocused]; exact hstill)]
    exact hfocused
  case any => exact hdone.any.trans (exists_congr fun s => hsource)

/-! ## One of two tabs comes back -/

def oneTab : Tree := (attachPane tileReference ⟨none, ∅⟩ ⟨0⟩).2

/-- Two tabs with a local shell each, the first one focused. -/
def twoTabs : App where
  __ := empty 2 true true
  tree := (attachPane tileReference oneTab ⟨1⟩).2
  live := ((∅ : Table SessionId LivePane).insert ⟨0⟩ (.new .prompt)).insert ⟨1⟩ (.new .prompt)
  sources := ((∅ : Table SessionId PaneSource).insert ⟨0⟩ (.adhoc localShellSpec)).insert ⟨1⟩
    (.adhoc localShellSpec)
  focused := some ⟨1⟩

def firstOnly : Env where
  getSession _ := none
  spawn inst _ := if inst = ⟨1⟩ then some "no pseudo-terminal left" else none

theorem restore_exact_firstOnly :
    twoTabs.tree.tiles.lookup ⟨1⟩ = some (.pane ⟨0⟩) ∧
      comesBack firstOnly twoTabs.sources ⟨0⟩ = true ∧
      comesBack firstOnly twoTabs.sources ⟨1⟩ = false ∧
      Restored firstOnly twoTabs
        ((empty 2 true true).restore tileReference firstOnly
          { twoTabs.layout with sources := twoTabs.layout.sources.reverse }).1
        ((empty 2 true true).restore tileReference firstOnly
          { twoTabs.layout with sources := twoTabs.layout.sources.reverse }).2 := by
  have hone : oneTab.Sound :=
    (attachPane_added tileReference_lawful Tree.sound_empty.loose (by decide)).1.sound
      Tree.sound_empty
  have htwo : twoTabs.tree.Sound :=
    (attachPane_added tileReference_lawful hone.loose (by decide)).1.sound hone
  have hpanes : ∀ s ∈ twoTabs.sources, twoTabs.tree.HasPane s := by
    intro s hs
    have hall : ∀ s ∈ twoTabs.sources.keys, twoTabs.tree.HasPane s := by decide
    exact hall s (AList.mem_keys.mp hs)
  have hread : twoTabs.layout.Reread
      { twoTabs.layout with sources := twoTabs.layout.sources.reverse } :=
    ⟨rfl, fun _ => rfl, List.reverse_perm _, rfl⟩
  exact ⟨by decide, by decide, by decide,
    restore_exact tileReference_lawful firstOnly htwo hpanes hread 2 true true⟩

end App

end PolyTerm
