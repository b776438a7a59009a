import PolyTerm.AppEffects

/-!
# Starting up

A started app has a layout that agrees with its live state, whatever the saved
layout's sessions do: each leaf of a restored tree is reopened or dropped.
-/

namespace PolyTerm

open Forest Tiles

namespace PersistedLayout

/-- The saved tree is a forest under its root, and its instances have been
minted. -/
structure Good (layout : PersistedLayout) (minted : Nat) : Prop where
  loose : layout.tree.Loose
  minted : ∀ {s}, layout.tree.HasPane s → s.uuid < minted

def Aimed (layout : PersistedLayout) : Prop :=
  ∀ t, layout.focused = some t → layout.tree.Shown t

end PersistedLayout

/-- The instance has a source, and it can be reopened. -/
def comesBack (env : Env) (sources : Table SessionId PaneSource) (inst : SessionId) : Bool :=
  (sources.lookup inst).any (env.reopens inst)

theorem comesBack_iff {env : Env} {sources : Table SessionId PaneSource} {inst : SessionId} :
    comesBack env sources inst = true ↔
      ∃ source, sources.lookup inst = some source ∧ env.reopens inst source = true :=
  Option.any_eq_true _ _

namespace App

variable {lib : TileLib} {env : Env} {app : App}

/-! ## The leaves of a saved tree -/

/-- A leaf is reopened if its instance comes back, and else closed. -/
theorem restoreLeaf_cases (lib : TileLib) (env : Env) (sources : Table SessionId PaneSource)
    (app : App) (any : Bool) (leaf : TileId × SessionId) :
    (∃ source onExit, sources.lookup leaf.2 = some source ∧ env.reopens leaf.2 source = true ∧
      restoreLeaf lib env sources (app, any) leaf =
        ({ app with
            live := app.live.insert leaf.2 (.new onExit)
            sources := app.sources.insert leaf.2 source
            lastError := none }, true)) ∨
    (comesBack env sources leaf.2 = false ∧ ∃ err, restoreLeaf lib env sources (app, any) leaf =
      (({ app with lastError := err } : App).closeTile lib leaf.1, any)) := by
  simp only [restoreLeaf]
  cases hsource : sources.lookup leaf.2 with
  | none => exact Or.inr ⟨by simp [comesBack, hsource], app.lastError, rfl⟩
  | some source =>
      cases hreopens : env.reopens leaf.2 source with
      | true =>
          obtain ⟨onExit, heq⟩ := openSource_reopens app hreopens
          refine Or.inl ⟨source, onExit, rfl, hreopens, ?_⟩
          simp only [heq, if_true]
      | false =>
          obtain ⟨err, heq⟩ := openSource_fails app hreopens
          refine Or.inr ⟨by simp [comesBack, hsource, hreopens], some err, ?_⟩
          simp only [heq, Bool.false_eq_true, if_false]

/-- The saved tree with the leaves before `leaves` reopened or dropped. -/
structure Restoring (saved : Tree) (minted : Nat) (app : App)
    (leaves : List (TileId × SessionId)) : Prop where
  good : app.Good
  sound : saved.Sound → app.tree.Sound
  minted : minted ≤ app.minted
  agrees : app.Agrees
  left : ∀ e ∈ leaves, app.tree.tiles.lookup e.1 = some (.pane e.2)
  nodup : (leaves.map Prod.fst).Nodup
  shown : ∀ t, saved.Shown t → app.tree.Shown t

theorem restoreLeaf_restoring (hlib : lib.Lawful) (env : Env)
    (sources : Table SessionId PaneSource) {saved : Tree} {minted : Nat}
    {leaf : TileId × SessionId} {leaves : List (TileId × SessionId)}
    (h : Restoring saved minted app (leaf :: leaves)) (any : Bool) :
    Restoring saved minted (restoreLeaf lib env sources (app, any) leaf).1 leaves := by
  have hpane := h.left leaf List.mem_cons_self
  have hrest := fun e he => h.left e (List.mem_cons_of_mem leaf he)
  obtain ⟨hnew, hnodup⟩ := List.nodup_cons.mp h.nodup
  rcases restoreLeaf_cases lib env sources app any leaf with
    ⟨source, onExit, -, -, heq⟩ | ⟨-, err, heq⟩
  · rw [heq]
    have hopens : Opens app
        { app with
          live := app.live.insert leaf.2 (.new onExit)
          sources := app.sources.insert leaf.2 source
          lastError := none } (some leaf.2) :=
      ⟨⟨h.good.loose, h.good.minted⟩, id, le_rfl, id, id,
        fun hs => Option.some.inj hs ▸ ⟨leaf.1, hpane⟩, Table.mem_insert_some,
        Table.mem_insert_some⟩
    exact ⟨hopens.good, h.sound, h.minted, hopens.agrees h.agrees, hrest, hnodup, h.shown⟩
  · rw [heq]
    -- the leaf is closed in an app with the same tree
    have hgood : ({ app with lastError := err } : App).Good := ⟨h.good.loose, h.good.minted⟩
    have hagrees : ({ app with lastError := err } : App).Agrees :=
      ⟨h.agrees.housed, h.agrees.recorded, h.agrees.current⟩
    have hc := closeTile_closes hlib hgood leaf.1
    refine ⟨hc.good, fun hs => hc.cut.sound (h.sound hs), h.minted.trans hc.minted.ge,
      hc.agrees hgood hagrees, fun e he => hc.cut.pane.mpr ⟨fun hbelow => ?_, hrest e he⟩, hnodup,
      fun t ht => hc.shown (h.shown t ht)⟩
    have hsame := below_childless (children_leaf (arena_leaf.mpr hpane)) hbelow
    exact hnew (hsame ▸ List.mem_map.mpr ⟨e, he, rfl⟩)

theorem foldl_restoreLeaf (hlib : lib.Lawful) (env : Env) (sources : Table SessionId PaneSource)
    {saved : Tree} {minted : Nat} :
    ∀ {leaves : List (TileId × SessionId)} {app : App} (any : Bool),
      Restoring saved minted app leaves →
        Restoring saved minted (leaves.foldl (restoreLeaf lib env sources) (app, any)).1 []
  | [], _, _, h => h
  | _ :: _, _, any, h => by
      rw [List.foldl_cons]
      exact foldl_restoreLeaf hlib env sources _ (restoreLeaf_restoring hlib env sources h any)

theorem mem_leavesOf {tree : Tree} {e : TileId × SessionId} (he : e ∈ leavesOf tree) :
    tree.tiles.lookup e.1 = some (.pane e.2) := by
  obtain ⟨⟨a, t⟩, hentry, hmap⟩ := List.mem_filterMap.mp he
  obtain ⟨s, hs, rfl⟩ := Option.map_eq_some_iff.mp hmap
  cases t with
  | container c => cases hs
  | pane s' =>
      cases hs
      exact AList.mem_lookup_iff.mpr hentry

theorem leavesOf_nodup (tree : Tree) : ((leavesOf tree).map Prod.fst).Nodup := by
  have hkeys := List.nodupKeys_iff_pairwise.mp tree.tiles.nodupKeys
  rw [leavesOf, List.map_filterMap, List.Nodup, List.pairwise_filterMap]
  refine hkeys.imp fun {e f} hne a ha b hb => ?_
  simp only [Option.map_map, Option.map_eq_some_iff, Function.comp_apply] at ha hb
  obtain ⟨-, -, rfl⟩ := ha
  obtain ⟨-, -, rfl⟩ := hb
  exact hne

/-- Restoring into a fresh app. -/
theorem restore_good (hlib : lib.Lawful) (env : Env) (app : App) {layout : PersistedLayout}
    (hlayout : layout.Good app.minted) (hlive : ∀ s, s ∉ app.live)
    (hsources : ∀ s, s ∉ app.sources) :
    (app.restore lib env layout).1.Good ∧ app.minted ≤ (app.restore lib env layout).1.minted ∧
      (app.restore lib env layout).1.Agrees ∧
      (layout.Aimed → (app.restore lib env layout).1.Aimed) ∧
      (layout.tree.Sound → (app.restore lib env layout).1.tree.Sound) := by
  let sources : Table SessionId PaneSource :=
    layout.sources.foldl (fun sources e => sources.insert e.1 e.2) ∅
  have hstart : Restoring layout.tree app.minted { app with tree := layout.tree }
      (leavesOf layout.tree) :=
    ⟨⟨hlayout.loose, hlayout.minted⟩, id, le_rfl,
      ⟨fun s hs => absurd hs (hlive s), fun s hs => absurd hs (hlive s),
        fun s hs => absurd hs (hsources s)⟩,
      fun e he => mem_leavesOf he, leavesOf_nodup _, fun _ ht => ht⟩
  have hdone := foldl_restoreLeaf hlib env sources false hstart
  let app' : App := ((leavesOf layout.tree).foldl (restoreLeaf lib env sources)
    ({ app with tree := layout.tree }, false)).1
  have hrestore : (app.restore lib env layout).1 =
      validateFocus lib { app' with focused := layout.focused } := rfl
  have hgood : ({ app' with focused := layout.focused } : App).Good :=
    ⟨hdone.good.loose, hdone.good.minted⟩
  obtain ⟨htree, hlive', hsources', hminted'⟩ :=
    validateFocus_tree lib { app' with focused := layout.focused }
  rw [hrestore]
  refine ⟨validateFocus_good hgood, hdone.minted.trans hminted'.ge, ⟨?_, ?_, ?_⟩,
    fun haimed => validateFocus_aimed hlib hgood ?_, fun hsound => ?_⟩
  · intro s hs
    rw [htree]
    exact hdone.agrees.housed s (hlive' ▸ hs)
  · intro s hs
    rw [hsources']
    exact hdone.agrees.recorded s (hlive' ▸ hs)
  · intro s hs
    rw [hlive']
    exact hdone.agrees.current s (hsources' ▸ hs)
  · exact fun t ht => hdone.shown t (haimed t ht)
  · rw [htree]
    exact hdone.sound hsound

theorem empty_good (minted : Nat) (restoreEnabled openShell : Bool) :
    (empty minted restoreEnabled openShell).Good :=
  ⟨Tree.sound_empty.loose, by rintro s ⟨a, ha⟩; cases ha⟩

/-- The app at startup. -/
theorem new_good (hlib : lib.Lawful) (env : Env) (minted : Nat) (restoreEnabled openShell : Bool)
    (saved : Option PersistedLayout) (initial : SessionSpec)
    (hsaved : ∀ layout, saved = some layout → layout.Good minted) :
    let app := new lib env minted restoreEnabled openShell saved initial
    app.Good ∧ minted ≤ app.minted ∧ app.Agrees ∧
      ((∀ layout, saved = some layout → layout.Aimed) → app.Aimed) ∧
      ((∀ layout, saved = some layout → layout.tree.Sound) → app.tree.Sound) := by
  let start := empty minted restoreEnabled openShell
  let Aimed (app : App) : Prop := (∀ layout, saved = some layout → layout.Aimed) → app.Aimed
  let Sound (app : App) : Prop :=
    (∀ layout, saved = some layout → layout.tree.Sound) → app.tree.Sound
  have hnone : ∀ s, s ∉ start.live := fun s => AList.notMem_empty s
  have hstart : start.Good ∧ start.Agrees ∧ start.Aimed ∧ start.tree.Sound :=
    ⟨empty_good .., ⟨fun s hs => absurd hs (hnone s), fun s hs => absurd hs (hnone s),
      fun s hs => absurd hs (AList.notMem_empty s)⟩, nofun, Tree.sound_empty⟩
  -- either way, before the initial session
  have hopen : ∀ (app : App) (restored : Bool), app.Good → minted ≤ app.minted → app.Agrees →
      Aimed app → Sound app →
      let app' := if !restored && (initial.kind != .localShell || openShell) then
        app.openInNewTab lib env (.adhoc initial) else app
      app'.Good ∧ minted ≤ app'.minted ∧ app'.Agrees ∧ Aimed app' ∧ Sound app' := by
    intro app restored hgood hminted hagrees haimed hsound app'
    simp only [app']
    split
    · obtain ⟨⟨new, ho⟩, haimed'⟩ := openInNewTab_opens hlib env hgood (.adhoc initial)
      exact ⟨ho.good, hminted.trans ho.minted, ho.agrees hagrees, fun h => haimed' (haimed h),
        fun h => ho.sound (hsound h)⟩
    · exact ⟨hgood, hminted, hagrees, haimed, hsound⟩
  have hfresh := hopen start false hstart.1 le_rfl hstart.2.1 (fun _ => hstart.2.2.1)
    fun _ => hstart.2.2.2
  cases restoreEnabled with
  | false => exact hfresh
  | true =>
      cases saved with
      | none => exact hfresh
      | some layout =>
          obtain ⟨hgood, hminted, hagrees, haimed, hsound⟩ := restore_good hlib env start
            (hsaved layout rfl) hnone (fun s => AList.notMem_empty s)
          exact hopen _ _ hgood hminted hagrees (fun h => haimed (h layout rfl))
            fun h => hsound (h layout rfl)

end App

end PolyTerm
