import PolyTerm.App

/-!
# What the app's operations do

Each operation that changes layout or live state either opens (a pane gets a
session, or joins the layout) or closes (a tile goes with all below it). The
two effects are stated once, in terms of the panes of the tree and the keys of
the two maps; what holds over runs is read off them.
-/

namespace PolyTerm

open Forest Tiles

/-- `source` can be opened in the pane of `inst`. -/
def Env.reopens (env : Env) (inst : SessionId) (source : PaneSource) : Bool :=
  (source.spec env).any fun spec => (env.spawn inst spec).isNone

namespace App

/-- The tree is a forest under its root, and its instances have been minted. -/
structure Good (app : App) : Prop where
  loose : app.tree.Loose
  minted : ∀ {s}, app.tree.HasPane s → s.uuid < app.minted

/-- The focused pane, if focus is on one, is visible. -/
def Aimed (app : App) : Prop := ∀ t, app.focused = some t → app.tree.Shown t

/-- Panes may have joined the tree, and `new` may have been opened in one. -/
structure Opens (app app' : App) (new : Option SessionId) : Prop where
  good : app'.Good
  sound : app.tree.Sound → app'.tree.Sound
  minted : app.minted ≤ app'.minted
  keeps : ∀ {s}, app.tree.HasPane s → app'.tree.HasPane s
  carries : ∀ {s}, app.tree.Carries s → app'.tree.Carries s
  pane : ∀ {s}, new = some s → app'.tree.HasPane s
  live : ∀ {s}, s ∈ app'.live ↔ s ∈ app.live ∨ new = some s
  sources : ∀ {s}, s ∈ app'.sources ↔ s ∈ app.sources ∨ new = some s

/-- The tile `tile` is gone, with all below it. -/
structure Closes (app app' : App) (tile : TileId) : Prop where
  good : app'.Good
  minted : app'.minted = app.minted
  cut : Cut app.tree app'.tree tile
  live : ∀ {s}, s ∈ app'.live ↔ s ∈ app.live ∧ s ∉ sessionIds app.tree.tiles tile
  lookup : ∀ {s}, s ∈ app'.live → app'.live.lookup s = app.live.lookup s
  sources : ∀ {s}, s ∈ app'.sources ↔ s ∈ app.sources ∧ s ∉ sessionIds app.tree.tiles tile
  focused : app'.focused = app.focused

variable {lib : TileLib} {env : Env} {app app' : App}

theorem Good.fresh (h : app.Good) : ¬app.tree.HasPane ⟨app.minted⟩ :=
  fun hpane => Nat.lt_irrefl _ (h.minted hpane)

theorem Good.wellFormed (h : app.Good) : WellFormed app.tree.tiles := h.loose.wellFormed

/-- The panes below a tile, by instance. -/
theorem hasPane_sessionIds (h : app.Good) {tile : TileId} {s : SessionId} :
    s ∈ sessionIds app.tree.tiles tile ↔
      ∃ a, Below app.tree.tiles.arena tile a ∧ app.tree.tiles.lookup a = some (.pane s) :=
  mem_sessionIds h.wellFormed

/-- Below a tile that is no container there is at most its own pane. -/
theorem bare_sessionIds (h : app.Good) {tile : TileId} {s : SessionId}
    (hbare : app.tree.tiles.Bare tile) (hs : s ∈ sessionIds app.tree.tiles tile) :
    app.tree.tiles.getPane tile = some s := by
  obtain ⟨a, hbelow, ha⟩ := (hasPane_sessionIds h).mp hs
  obtain rfl := below_childless hbare.children hbelow
  exact getPane_eq_some.mpr ha

theorem focusedSession_hasPane (h : app.Good) {s : SessionId} (hs : app.focusedSession = some s) :
    app.tree.HasPane s := by
  obtain ⟨t, -, hhead⟩ := Option.bind_eq_some_iff.mp hs
  obtain ⟨a, -, ha⟩ := (hasPane_sessionIds h).mp (List.mem_of_mem_head? hhead)
  exact ⟨a, ha⟩

/-! ## Opening -/

theorem Opens.refl (h : app.Good) : Opens app app none :=
  ⟨h, id, le_rfl, id, id, nofun, by simp, by simp⟩

theorem openSource_reopens (app : App) {inst : SessionId} {source : PaneSource}
    (h : env.reopens inst source = true) :
    ∃ onExit, app.openSource env inst source =
      ({ app with
          live := app.live.insert inst (.new onExit)
          sources := app.sources.insert inst source
          lastError := none }, true) := by
  obtain ⟨spec, hspec, hspawn⟩ := (Option.any_eq_true _ _).mp h
  refine ⟨spec.onExit, ?_⟩
  simp only [openSource, hspec, Option.isNone_iff_eq_none.mp hspawn]

theorem openSource_fails (app : App) {inst : SessionId} {source : PaneSource}
    (h : env.reopens inst source = false) :
    ∃ err, app.openSource env inst source = ({ app with lastError := some err }, false) := by
  unfold openSource
  cases hspec : source.spec env with
  | none => exact ⟨_, rfl⟩
  | some spec =>
      cases hspawn : env.spawn inst spec with
      | none => simp [Env.reopens, hspec, hspawn] at h
      | some e =>
          refine ⟨"Could not open " ++ spec.name ++ ": " ++ e, ?_⟩
          simp only [hspawn]

/-- A session that could not be opened leaves an error; an opened one enters
both maps. -/
theorem openSource_cases (env : Env) (app : App) (inst : SessionId) (source : PaneSource) :
    (∃ err, app.openSource env inst source = ({ app with lastError := some err }, false)) ∨
      ∃ onExit, app.openSource env inst source =
        ({ app with
            live := app.live.insert inst (.new onExit)
            sources := app.sources.insert inst source
            lastError := none }, true) := by
  cases h : env.reopens inst source with
  | true => exact Or.inr (openSource_reopens app h)
  | false => exact Or.inl (openSource_fails app h)

/-- Opening where a pane is already in the tree. -/
theorem openSource_opens (env : Env) (h : app.Good) {inst : SessionId} (source : PaneSource)
    (hpane : app.tree.HasPane inst) :
    ∃ new, Opens app (app.openSource env inst source).1 new ∧
      (app.openSource env inst source).1.tree = app.tree ∧
      (app.openSource env inst source).1.focused = app.focused := by
  rcases openSource_cases env app inst source with ⟨err, heq⟩ | ⟨onExit, heq⟩
  · rw [heq]
    exact ⟨none, ⟨⟨h.loose, h.minted⟩, id, le_rfl, id, id, nofun, by simp, by simp⟩, rfl, rfl⟩
  · rw [heq]
    refine ⟨some inst, ⟨⟨h.loose, h.minted⟩, id, le_rfl, id, id, ?_, Table.mem_insert_some,
      Table.mem_insert_some⟩, rfl, rfl⟩
    intro s hs
    obtain rfl := Option.some.inj hs
    exact hpane

/-- A minted instance joins the tree, with or without a session. -/
theorem good_added (h : app.Good) {tree' : Tree} {leaf : TileId}
    (hadd : Added app.tree tree' leaf ⟨app.minted⟩) (htree : app'.tree = tree')
    (hminted : app'.minted = app.minted + 1) : app'.Good := by
  refine ⟨htree ▸ hadd.loose, fun {s} hs => ?_⟩
  rw [htree, hadd.hasPane] at hs
  rw [hminted]
  rcases hs with hold | rfl
  · exact Nat.lt_succ_of_lt (h.minted hold)
  · exact Nat.lt_succ_self _

/-- Opening at a fresh leaf, however the leaf is placed. -/
theorem openAt_opens (env : Env) (h : app.Good) (source : PaneSource)
    {place : Tree → SessionId → TileId × Tree}
    (hadd : Added app.tree (place app.tree ⟨app.minted⟩).2 (place app.tree ⟨app.minted⟩).1
      ⟨app.minted⟩) :
    (∃ new, Opens app (app.openAt env place source) new) ∧
      (((app.openAt env place source).tree = (place app.tree ⟨app.minted⟩).2 ∧
          (app.openAt env place source).focused = some (place app.tree ⟨app.minted⟩).1) ∨
        ((app.openAt env place source).tree = app.tree ∧
          (app.openAt env place source).focused = app.focused)) := by
  rcases openSource_cases env { app with minted := app.minted + 1 } ⟨app.minted⟩ source with
    ⟨err, heq⟩ | ⟨onExit, heq⟩
  · simp only [openAt, makeLive, mint, heq, Bool.false_eq_true, if_false]
    refine ⟨⟨none, ⟨h.loose, fun hs => ?_⟩, id, Nat.le_succ _, id, id, nofun, by simp, by simp⟩,
      by simp⟩
    exact Nat.lt_succ_of_lt (h.minted hs)
  · simp only [openAt, makeLive, mint, heq, if_true]
    refine ⟨⟨some ⟨app.minted⟩, good_added h hadd rfl rfl, hadd.sound, Nat.le_succ _,
      fun hs => hadd.hasPane.mpr (Or.inl hs), hadd.carries, ?_, Table.mem_insert_some,
      Table.mem_insert_some⟩, by simp⟩
    intro s hs
    obtain rfl := Option.some.inj hs
    exact ⟨_, hadd.pane⟩

/-- A fresh leaf that is visible keeps the focus on something visible. -/
theorem openAt_aimed (env : Env) (h : app.Good) (source : PaneSource)
    {place : Tree → SessionId → TileId × Tree}
    (hadd : Added app.tree (place app.tree ⟨app.minted⟩).2 (place app.tree ⟨app.minted⟩).1
      ⟨app.minted⟩)
    (hpath : (place app.tree ⟨app.minted⟩).2.OnActivePath (place app.tree ⟨app.minted⟩).1)
    (haimed : app.Aimed) : (app.openAt env place source).Aimed := by
  intro t ht s hs
  rcases (openAt_opens env h source hadd).2 with ⟨htree, hfocused⟩ | ⟨htree, hfocused⟩
  · obtain rfl := Option.some.inj (hfocused.symm.trans ht)
    exact htree ▸ hpath
  · exact htree ▸ haimed t (hfocused ▸ ht) s (htree ▸ hs)

theorem openInNewTab_opens (hlib : lib.Lawful) (env : Env) (h : app.Good) (source : PaneSource) :
    (∃ new, Opens app (app.openInNewTab lib env source) new) ∧
      (app.Aimed → (app.openInNewTab lib env source).Aimed) := by
  obtain ⟨hadd, hpath⟩ := attachPane_added hlib h.loose h.fresh
  exact ⟨(openAt_opens env h source hadd).1, openAt_aimed env h source hadd hpath⟩

theorem openInActiveTile_opens (hlib : lib.Lawful) (env : Env) (h : app.Good)
    (source : PaneSource) :
    (∃ new, Opens app (app.openInActiveTile lib env source) new) ∧
      (app.Aimed → (app.openInActiveTile lib env source).Aimed) := by
  unfold openInActiveTile
  split
  · obtain ⟨hadd, hpath⟩ := attachPane_added hlib h.loose h.fresh
    exact ⟨(openAt_opens env h source hadd).1, openAt_aimed env h source hadd hpath⟩
  · rename_i focused hfocused
    obtain ⟨hfocused, hpane⟩ := Option.filter_eq_some_iff.mp hfocused
    obtain ⟨held, hheld⟩ := Option.isSome_iff_exists.mp hpane
    split
    · rename_i inst hinst
      have hget := (Option.filter_eq_some_iff.mp hinst).1
      obtain ⟨new, hopens, htree, hfocus⟩ :=
        openSource_opens env h source ⟨focused, getPane_eq_some.mp hget⟩
      refine ⟨⟨new, hopens⟩, fun haimed t ht s hs => ?_⟩
      rw [htree] at hs ⊢
      exact haimed t (hfocus ▸ ht) s hs
    · obtain ⟨hadd, hpath⟩ :=
        addTabBeside_added hlib h.loose h.fresh (getPane_eq_some.mp hheld)
      refine ⟨(openAt_opens env h source hadd).1, fun haimed =>
        openAt_aimed env h source hadd (hpath ?_) haimed⟩
      exact haimed focused hfocused held (getPane_eq_some.mp hheld)

/-- The empty half of a split joins the tree. -/
theorem applySplit_opens (hlib : lib.Lawful) (h : app.Good) (tile : TileId) (dir : SplitDir) :
    Opens app (app.applySplit lib tile dir) none := by
  unfold applySplit
  cases hget : app.tree.tiles.getPane tile with
  | none => exact .refl h
  | some held =>
      have hadd := splitTile_added hlib h.loose h.fresh dir (getPane_eq_some.mp hget)
      exact ⟨good_added h hadd rfl rfl, hadd.sound, Nat.le_succ _,
        fun hs => hadd.hasPane.mpr (Or.inl hs), hadd.carries, nofun, by simp [mint], by simp [mint]⟩

/-- What a split leaves below a tile that was no container: the split pane, if
it was the tile, and else no more than the tile. -/
theorem applySplit_below (hlib : lib.Lawful) (h : app.Good) {tile t : TileId} {dir : SplitDir}
    {s : SessionId} (hbare : app.tree.tiles.Bare t) (hs : app.tree.HasPane s)
    (hmem : s ∈ sessionIds (app.applySplit lib tile dir).tree.tiles t) :
    (tile = t ∧ app.tree.tiles.getPane t = some s) ∨
      (app.applySplit lib tile dir).tree.tiles.getPane t = some s := by
  have hgood := (applySplit_opens hlib h tile dir).good
  cases hget : app.tree.tiles.getPane tile with
  | none =>
      simp only [applySplit, hget] at hmem ⊢
      exact Or.inr (bare_sessionIds h hbare hmem)
  | some held =>
      obtain ⟨moved, c, -, hedit⟩ :=
        splitTile_edited hlib h.loose h.fresh dir (getPane_eq_some.mp hget)
      have htiles : (app.applySplit lib tile dir).tree.tiles =
          (splitTile lib app.tree held ⟨app.minted⟩ tile dir).2.tiles := by
        simp only [applySplit, hget, mint]
      rw [← htiles] at hedit
      by_cases hsame : tile = t
      · subst hsame
        obtain ⟨a, hbelow, ha⟩ := (hasPane_sessionIds hgood).mp hmem
        have hnew := hedit.below hbare hbelow ha
        simp only [List.mem_cons, Prod.mk.injEq, List.not_mem_nil, or_false] at hnew
        rcases hnew with ⟨-, rfl⟩ | ⟨-, rfl⟩
        · exact Or.inl ⟨rfl, hget⟩
        · exact absurd hs h.fresh
      · exact Or.inr (bare_sessionIds hgood (hedit.bare (Ne.symm hsame) hbare) hmem)

/-- A split pane's tile is a container, with the pane below. -/
theorem applySplit_holds (hlib : lib.Lawful) (h : app.Good) {tile : TileId} (dir : SplitDir)
    {s : SessionId} (hget : app.tree.tiles.getPane tile = some s) :
    (app.applySplit lib tile dir).tree.tiles.getPane tile = none ∧
      s ∈ sessionIds (app.applySplit lib tile dir).tree.tiles tile := by
  have hgood := (applySplit_opens hlib h tile dir).good
  obtain ⟨moved, c, -, hedit⟩ :=
    splitTile_edited hlib h.loose h.fresh dir (getPane_eq_some.mp hget)
  have htiles : (app.applySplit lib tile dir).tree.tiles =
      (splitTile lib app.tree s ⟨app.minted⟩ tile dir).2.tiles := by
    simp only [applySplit, hget, mint]
  rw [← htiles] at hedit
  refine ⟨by rw [getPane, hedit.here], (hasPane_sessionIds hgood).mpr ⟨moved, .single ?_, ?_⟩⟩
  · refine child_iff.mpr ⟨c, hedit.here, ?_⟩
    rw [hedit.children]
    simp
  · exact hedit.new (e := (moved, s)) (by simp)

theorem restartPane_opens (env : Env) (h : app.Good) {inst : SessionId}
    (hpane : app.tree.HasPane inst) :
    ∃ new, Opens app (app.restartPane env inst) new ∧ (app.restartPane env inst).tree = app.tree ∧
      (app.restartPane env inst).focused = app.focused := by
  unfold restartPane
  cases app.sources.lookup inst with
  | none => exact ⟨none, .refl h, rfl, rfl⟩
  | some source => exact openSource_opens env h source hpane

/-! ## Closing -/

theorem mem_closed (hlib : lib.Lawful) (h : app.Good) {tile : TileId} {s : SessionId} :
    s ∈ (lib.removeRecursively app.tree tile).1.filterMap Tile.session ↔
      s ∈ sessionIds app.tree.tiles tile := by
  rw [hasPane_sessionIds h, List.mem_filterMap]
  constructor
  · rintro ⟨t, ht, hs⟩
    obtain ⟨a, hbelow, ha⟩ := (hlib.removed h.loose).mp ht
    cases t with
    | container c => cases hs
    | pane s' =>
        obtain rfl := Option.some.inj hs
        exact ⟨a, hbelow, ha⟩
  · rintro ⟨a, hbelow, ha⟩
    exact ⟨.pane s, (hlib.removed h.loose).mpr ⟨a, hbelow, ha⟩, rfl⟩

theorem closeTile_closes (hlib : lib.Lawful) (h : app.Good) (tile : TileId) :
    Closes app (app.closeTile lib tile) tile := by
  have hcut : Cut app.tree (app.closeTile lib tile).tree tile := hlib.cut h.loose tile
  have hmem : ∀ {s}, s ∉ (lib.removeRecursively app.tree tile).1.filterMap Tile.session ↔
      s ∉ sessionIds app.tree.tiles tile := not_congr (mem_closed hlib h)
  refine ⟨⟨hcut.loose, fun {s} hs => ?_⟩, rfl, hcut, fun {s} => ?_, fun {s} hs => ?_,
    fun {s} => ?_, rfl⟩
  · obtain ⟨a, ha⟩ := hs
    exact h.minted ⟨a, (hcut.pane.mp ha).2⟩
  · rw [closeTile, Table.mem_foldl_erase, hmem]
  · rw [closeTile, Table.mem_foldl_erase] at hs
    exact Table.lookup_foldl_erase hs.2
  · rw [closeTile, Table.mem_foldl_erase, hmem]

/-- A pane that is not below the tile that goes stays. -/
theorem cut_keeps {tree' : Tree} {tile : TileId} (hc : Cut app.tree tree' tile) (h : app.Good)
    {s : SessionId} (hs : app.tree.HasPane s) (hout : s ∉ sessionIds app.tree.tiles tile) :
    tree'.HasPane s := by
  obtain ⟨a, ha⟩ := hs
  exact ⟨a, hc.pane.mpr ⟨fun hbelow => hout ((hasPane_sessionIds h).mpr ⟨a, hbelow, ha⟩), ha⟩⟩

theorem cut_carries {tree' : Tree} {tile : TileId} (hc : Cut app.tree tree' tile) (h : app.Good)
    {s : SessionId} (hs : app.tree.Carries s) (hout : s ∉ sessionIds app.tree.tiles tile) :
    tree'.Carries s := by
  obtain ⟨a, hr, ha⟩ := hs
  have hout' : ¬Below app.tree.tiles.arena tile a :=
    fun hbelow => hout ((hasPane_sessionIds h).mpr ⟨a, hbelow, ha⟩)
  exact ⟨a, hc.reach hr hout', hc.pane.mpr ⟨hout', ha⟩⟩

theorem cut_removes {tree' : Tree} {tile : TileId} (hc : Cut app.tree tree' tile) (h : app.Good)
    {s : SessionId} (hmem : s ∈ sessionIds app.tree.tiles tile) : ¬tree'.HasPane s := by
  rintro ⟨a, ha⟩
  obtain ⟨b, hbelow, hb⟩ := (hasPane_sessionIds h).mp hmem
  obtain ⟨hout, hold⟩ := hc.pane.mp ha
  exact hout (h.loose.only hb a hold ▸ hbelow)

/-- What is left of a visible pane's surroundings still shows it. -/
theorem Closes.shown {tile t : TileId} (hc : Closes app app' tile) (ht : app.tree.Shown t) :
    app'.tree.Shown t := by
  intro s hs
  obtain ⟨hout, hold⟩ := hc.cut.pane.mp hs
  exact hc.cut.onActivePath (ht s hold) hout

theorem Closes.aimed {tile : TileId} (hc : Closes app app' tile) (h : app.Aimed) : app'.Aimed :=
  fun t ht => hc.shown (h t (hc.focused ▸ ht))

/-! ## Focus -/

theorem validateFocus_tree (lib : TileLib) (app : App) :
    (app.validateFocus lib).tree = app.tree ∧ (app.validateFocus lib).live = app.live ∧
      (app.validateFocus lib).sources = app.sources ∧
      (app.validateFocus lib).minted = app.minted := by
  unfold validateFocus
  split <;> exact ⟨rfl, rfl, rfl, rfl⟩

theorem validateFocus_good (h : app.Good) : (app.validateFocus lib).Good := by
  obtain ⟨htree, -, -, hminted⟩ := validateFocus_tree lib app
  exact ⟨htree ▸ h.loose, fun hs => hminted ▸ h.minted (htree ▸ hs)⟩

/-- Focus ends up on a pane, or nowhere. -/
theorem validateFocus_focused {t : TileId} (ht : (app.validateFocus lib).focused = some t) :
    app.tree.tiles.isPane t = true := by
  unfold validateFocus at ht
  split at ht
  · rename_i hpane
    rw [ht] at hpane
    exact hpane
  · exact List.find?_some ht

theorem validateFocus_aimed (hlib : lib.Lawful) (h : app.Good) (haimed : app.Aimed) :
    (app.validateFocus lib).Aimed := by
  intro t ht
  rw [(validateFocus_tree lib app).1]
  unfold validateFocus at ht
  split at ht
  · exact haimed t ht
  · exact fun _ _ => hlib.active h.loose (List.mem_of_find?_eq_some ht)

/-! ## Closing several tiles -/

/-- What every close of a list of tiles preserves. -/
theorem foldl_closeTile (hlib : lib.Lawful) {P : App → Prop} :
    ∀ {tiles : List TileId} {app : App},
      (∀ tile ∈ tiles, ∀ app app', app.Good → P app → Closes app app' tile → P app') →
      app.Good → P app →
      (tiles.foldl (closeTile lib) app).Good ∧ P (tiles.foldl (closeTile lib) app)
  | [], _, _, hgood, hp => ⟨hgood, hp⟩
  | tile :: _, app, hstep, hgood, hp => by
      have hc := closeTile_closes hlib hgood tile
      rw [List.foldl_cons]
      exact foldl_closeTile hlib (fun t ht => hstep t (List.mem_cons_of_mem _ ht)) hc.good
        (hstep tile List.mem_cons_self app _ hgood hp hc)

/-- A pane of `app₀` is still that pane, or gone. -/
def PanesFrom (app₀ app : App) : Prop :=
  ∀ a s, app₀.tree.tiles.lookup a = some (.pane s) →
    app.tree.tiles.lookup a = none ∨ app.tree.tiles.lookup a = some (.pane s)

theorem PanesFrom.closes {app₀ : App} {tile : TileId} (h : PanesFrom app₀ app)
    (hc : Closes app app' tile) : PanesFrom app₀ app' := by
  intro a s hs
  cases ha' : app'.tree.tiles.lookup a with
  | none => exact Or.inl rfl
  | some tile' =>
      obtain ⟨t, ht, hun⟩ := hc.cut.old ha'
      rcases h a s hs with hnone | hpane
      · rw [hnone] at ht
        cases ht
      · obtain rfl := Option.some.inj (hpane.symm.trans ht)
        exact Or.inr (congrArg some hun)

/-- Below a tile that was a pane there is at most that pane. -/
theorem PanesFrom.sessionIds {app₀ : App} (h : PanesFrom app₀ app) (hgood : app.Good)
    {a : TileId} {s i : SessionId} (ha : app₀.tree.tiles.lookup a = some (.pane i))
    (hs : s ∈ sessionIds app.tree.tiles a) : s = i := by
  have hbare : app.tree.tiles.Bare a := by
    intro c hc
    rcases h a i ha with hnone | hpane
    · rw [hnone] at hc
      cases hc
    · rw [hpane] at hc
      cases hc
  have hpane := getPane_eq_some.mp (bare_sessionIds hgood hbare hs)
  rcases h a i ha with hnone | hi
  · rw [hnone] at hpane
    cases hpane
  · exact Tile.pane.inj (Option.some.inj (hpane.symm.trans hi))

/-- Closing what has finished keeps every other pane. -/
theorem closeFinishedPanes_keeps (hlib : lib.Lawful) (h : app.Good) {s : SessionId}
    (hs : app.tree.Carries s) (hrunning : (app.live.lookup s).any closesOnExit = false) :
    (app.closeFinishedPanes lib).tree.Carries s := by
  refine (foldl_closeTile hlib (P := fun app' => app'.tree.Carries s ∧ PanesFrom app app')
    (fun tile htile app₁ app₂ hgood hp hc => ?_) h ⟨hs, fun _ _ ha => Or.inr ha⟩).2.1
  obtain ⟨⟨a, t⟩, hentry, hfinished⟩ := List.mem_filterMap.mp htile
  have ha : app.tree.tiles.lookup a = some t := AList.mem_lookup_iff.mpr hentry
  cases t with
  | container c => cases hfinished
  | pane i =>
      simp only [Option.ite_none_right_eq_some, Option.some.injEq] at hfinished
      obtain ⟨hfinished, rfl⟩ := hfinished
      refine ⟨cut_carries hc.cut hgood hp.1 fun hmem => ?_, hp.2.closes hc⟩
      rw [hp.2.sessionIds hgood ha hmem] at hrunning
      rw [hrunning] at hfinished
      cases hfinished

/-! ## Layout and live state -/

/-- Every live pane has its place in the tree. -/
def Housed (app : App) : Prop := ∀ s ∈ app.live, app.tree.HasPane s

/-- Every live pane can be reopened. -/
def Recorded (app : App) : Prop := ∀ s ∈ app.live, s ∈ app.sources

/-- Only live panes are to be reopened. -/
def Current (app : App) : Prop := ∀ s ∈ app.sources, s ∈ app.live

theorem Opens.housed {new : Option SessionId} (ho : Opens app app' new) (h : app.Housed) :
    app'.Housed := by
  intro s hs
  rcases ho.live.mp hs with hold | hnew
  · exact ho.keeps (h s hold)
  · exact ho.pane hnew

theorem Opens.recorded {new : Option SessionId} (ho : Opens app app' new) (h : app.Recorded) :
    app'.Recorded :=
  fun s hs => ho.sources.mpr ((ho.live.mp hs).imp_left (h s))

theorem Opens.current {new : Option SessionId} (ho : Opens app app' new) (h : app.Current) :
    app'.Current :=
  fun s hs => ho.live.mpr ((ho.sources.mp hs).imp_left (h s))

theorem Closes.housed {tile : TileId} (hc : Closes app app' tile) (hgood : app.Good)
    (h : app.Housed) : app'.Housed := by
  intro s hs
  obtain ⟨hold, hout⟩ := hc.live.mp hs
  exact cut_keeps hc.cut hgood (h s hold) hout

theorem Closes.recorded {tile : TileId} (hc : Closes app app' tile) (h : app.Recorded) :
    app'.Recorded :=
  fun s hs => hc.sources.mpr ((hc.live.mp hs).imp_left (h s))

theorem Closes.current {tile : TileId} (hc : Closes app app' tile) (h : app.Current) :
    app'.Current :=
  fun s hs => hc.live.mpr ((hc.sources.mp hs).imp_left (h s))

/-- Layout and live state agree. -/
structure Agrees (app : App) : Prop where
  housed : app.Housed
  recorded : app.Recorded
  current : app.Current

theorem Opens.agrees {new : Option SessionId} (ho : Opens app app' new) (h : app.Agrees) :
    app'.Agrees := ⟨ho.housed h.housed, ho.recorded h.recorded, ho.current h.current⟩

theorem Closes.agrees {tile : TileId} (hc : Closes app app' tile) (hgood : app.Good)
    (h : app.Agrees) : app'.Agrees :=
  ⟨hc.housed hgood h.housed, hc.recorded h.recorded, hc.current h.current⟩

end App

end PolyTerm
