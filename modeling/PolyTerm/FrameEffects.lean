import PolyTerm.Frames
import PolyTerm.KeyIsolation
import PolyTerm.Startup

/-!
# What the stages of a frame do

Most of a frame closes nothing: it keeps every pane of the tree, and it keeps
layout and live state in agreement (`Keeps`). What may close a tile is ended
sessions, the restart menu, a tab's close button, a pane's own menu, and the
close confirmation; each of them gets a lemma that says which tile it is.

From a tab's close button to the next drawing, tiles may be cut off from the
root. What is kept is stated of the panes below the root (`Tree.Carries`).
-/

namespace PolyTerm

open Forest Tiles

namespace App

variable {lib : TileLib} {env : Env} {app app' app'' : App}

/-- Nothing is closed. -/
structure Keeps (app app' : App) : Prop where
  good : app'.Good
  sound : app.tree.Sound → app'.tree.Sound
  minted : app.minted ≤ app'.minted
  panes : ∀ {s}, app.tree.Carries s → app'.tree.Carries s
  housed : app.tree.Sound → app.Housed → app'.Housed
  recorded : app.Recorded → app'.Recorded
  current : app.Current → app'.Current

theorem Keeps.trans (h : Keeps app app') (h' : Keeps app' app'') : Keeps app app'' :=
  ⟨h'.good, fun hs => h'.sound (h.sound hs), h.minted.trans h'.minted,
    fun hs => h'.panes (h.panes hs), fun hs hh => h'.housed (h.sound hs) (h.housed hs hh),
    fun hs => h'.recorded (h.recorded hs), fun hs => h'.current (h.current hs)⟩

theorem Keeps.agrees (h : Keeps app app') (hs : app.tree.Sound) (ha : app.Agrees) : app'.Agrees :=
  ⟨h.housed hs ha.housed, h.recorded ha.recorded, h.current ha.current⟩

theorem Opens.keeps_all {new : Option SessionId} (ho : Opens app app' new) : Keeps app app' :=
  ⟨ho.good, ho.sound, ho.minted, ho.carries, fun _ => ho.housed, ho.recorded, ho.current⟩

/-- No pane joins the tree, those below the root stay there, and the maps have
the same keys. -/
theorem keeps_of_same (hloose : app'.tree.Loose) (hsound : app.tree.Sound → app'.tree.Sound)
    (h : app.Good) (hpanes : ∀ s, app'.tree.HasPane s → app.tree.HasPane s)
    (hcarries : ∀ s, app.tree.Carries s → app'.tree.Carries s) (hminted : app.minted ≤ app'.minted)
    (hlive : ∀ s, s ∈ app'.live ↔ s ∈ app.live) (hsources : app'.sources = app.sources) :
    Keeps app app' where
  good := ⟨hloose, fun {s} hs => (h.minted (hpanes s hs)).trans_le hminted⟩
  sound := hsound
  minted := hminted
  panes := hcarries _
  housed := fun hs hh s hlive' =>
    (hcarries s (hs.carries_iff.mpr (hh s ((hlive s).mp hlive')))).hasPane
  recorded := fun hr s hs => hsources ▸ hr s ((hlive s).mp hs)
  current := fun hc s hs => (hlive s).mpr (hc s (hsources ▸ hs))

/-- The tree is the same, and the maps have the same keys. -/
theorem keeps_of_tree (h : app.Good) (htree : app'.tree = app.tree)
    (hminted : app.minted ≤ app'.minted) (hlive : ∀ s, s ∈ app'.live ↔ s ∈ app.live)
    (hsources : app'.sources = app.sources) : Keeps app app' :=
  keeps_of_same (htree ▸ h.loose) (fun hs => htree ▸ hs) h (fun _ hs => htree ▸ hs)
    (fun _ hs => htree ▸ hs) hminted hlive hsources

theorem Keeps.refl (h : app.Good) : Keeps app app :=
  keeps_of_tree h rfl le_rfl (fun _ => Iff.rfl) rfl

/-! ## Before the tiles are drawn -/

theorem pump_keeps (h : app.Good) (fed : SessionId → LivePane.Fed) : Keeps app (app.pump fed) :=
  keeps_of_tree h rfl le_rfl (fun _ => Table.mem_mapValues) rfl

theorem validateFocus_keeps (lib : TileLib) (h : app.Good) : Keeps app (app.validateFocus lib) := by
  obtain ⟨htree, hlive, hsources, hminted⟩ := validateFocus_tree lib app
  exact keeps_of_tree h htree hminted.ge (fun s => by rw [hlive]) hsources

/-- What every close preserves, closing the ended sessions does. -/
theorem closeFinished_preserves (hlib : lib.Lawful) (h : app.Good) {P : App → Prop} (hp : P app)
    (hstep : ∀ tile app app', app.Good → P app → Closes app app' tile → P app') :
    (app.closeFinishedPanes lib).Good ∧ P (app.closeFinishedPanes lib) :=
  foldl_closeTile hlib (fun tile _ => hstep tile) h hp

/-- A frame's input closes nothing, or the focused tile, whose session has
ended. -/
theorem keyboard_cases (lib : TileLib) (env : Env) (logStarts elsewhere : Bool) (h : app.Good)
    (events : List InputEvent) :
    Keeps app (app.keyboard lib env logStarts elsewhere events) ∨
      ∃ t s, app.focused = some t ∧ app.focusedSession = some s ∧
        (app.live.lookup s).any (·.finished) = true ∧
        app.keyboard lib env logStarts elsewhere events = app.closeTile lib t := by
  unfold keyboard
  split
  · exact Or.inl (.refl h)
  · cases hfocused : app.focusedSession with
    | none =>
        simp only [routeKeyboard, hfocused]
        exact Or.inl (.refl h)
    | some s =>
        cases hfinished : (app.live.lookup s).any (·.finished) with
        | false =>
            obtain ⟨hsame, hmodes⟩ :=
              routeKeyboard_same lib env logStarts app events hfocused hfinished
            rw [moved_eq] at hsame
            exact Or.inl (keeps_of_tree h hsame.tree hsame.minted.ge (fun _ => hmodes.mem)
              hsame.sources)
        | true =>
            simp only [routeKeyboard, hfocused, hfinished, if_true]
            obtain ⟨t, ht, -⟩ := Option.bind_eq_some_iff.mp hfocused
            split
            · obtain ⟨new, ho, -⟩ := restartPane_opens env h (focusedSession_hasPane h hfocused)
              exact Or.inl ho.keeps_all
            · rw [ht]
              exact Or.inr ⟨t, s, rfl, rfl, hfinished, rfl⟩
            · exact Or.inl (.refl h)

theorem applyPanelAction_keeps (hlib : lib.Lawful) (env : Env) (h : app.Good)
    (action : PanelAction) :
    Keeps app (app.applyPanelAction lib env action) ∧
      (app.Aimed → (app.applyPanelAction lib env action).Aimed) := by
  cases action with
  | other => exact ⟨.refl h, id⟩
  | openLocalShell =>
      obtain ⟨⟨new, ho⟩, haimed⟩ := openInActiveTile_opens hlib env h (.adhoc localShellSpec)
      exact ⟨ho.keeps_all, haimed⟩
  | openSaved id =>
      obtain ⟨⟨new, ho⟩, haimed⟩ := openInActiveTile_opens hlib env h (.saved id)
      exact ⟨ho.keeps_all, haimed⟩

theorem sessionPanel_keeps (hlib : lib.Lawful) (env : Env) (h : app.Good)
    (actions : List PanelAction) :
    Keeps app (app.sessionPanel lib env actions) ∧
      (app.Aimed → (app.sessionPanel lib env actions).Aimed) := by
  have hfold : ∀ {app : App}, app.Good →
      Keeps app (actions.foldl (applyPanelAction lib env) app) ∧
        (app.Aimed → (actions.foldl (applyPanelAction lib env) app).Aimed) := by
    induction actions with
    | nil => exact fun h => ⟨.refl h, id⟩
    | cons action actions ih =>
        intro app h
        obtain ⟨hkeeps, haimed⟩ := applyPanelAction_keeps hlib env h action
        obtain ⟨hkeeps', haimed'⟩ := ih hkeeps.good
        exact ⟨hkeeps.trans hkeeps', fun ha => haimed' (haimed ha)⟩
  unfold sessionPanel
  split
  · exact hfold h
  · exact ⟨.refl h, id⟩

/-! ## The tiles -/

theorem settle_keeps (hlib : lib.Lawful) (h : app.Good) (rects : Table TileId Rect) :
    Keeps app (app.settle lib rects) ∧ (app.Aimed → (app.settle lib rects).Aimed) := by
  have hsound : (app.settle lib rects).tree.Sound := hlib.settle_sound h.loose
  refine ⟨keeps_of_same hsound.loose (fun _ => hsound) h
    (fun s hs => ((hlib.settle_panes h.loose).mp hs).hasPane)
    (fun s hs => hsound.carries_iff.mpr ((hlib.settle_panes h.loose).mpr hs)) le_rfl
    (fun _ => Iff.rfl) rfl, fun haimed t ht s hs => ?_⟩
  have hheld : t ∈ app.heldTiles := by
    have hfocused : app.focused = some t := ht
    simp [heldTiles, hfocused]
  have hbefore := hlib.settle_spent h.loose hheld hs
  exact hlib.settle_active h.loose (haimed t ht s hbefore) hbefore hs

/-- A tile with a header has a parent, so it is not the root. -/
theorem tabGroup_not_root (hlib : lib.Lawful) (h : app.Good) {tile : TileId} {t : Tabs}
    (ht : app.tabGroup lib tile = some t) : app.tree.root ≠ some tile := by
  obtain ⟨group, hparent, -⟩ := Option.bind_eq_some_iff.mp ht
  intro hroot
  exact h.loose.orphan hroot ((hlib.parent h.loose.forest).mp hparent)

/-- What a tab's close button does, unless it asks: the tile goes, and if it is
a pane, so does its session. -/
structure TabClosed (lib : TileLib) (app app' : App) (tile : TileId) : Prop where
  good : app'.Good
  minted : app'.minted = app.minted
  tree : app'.tree = lib.dropTab app.tree tile
  notRoot : app.tree.root ≠ some tile
  quiet : app.hasForwards tile = false
  live : ∀ {s}, s ∈ app'.live ↔ s ∈ app.live ∧ app.tree.tiles.getPane tile ≠ some s
  sources : app'.sources = app.sources
  focused : app'.focused = app.focused

theorem onTabClose_closed (hlib : lib.Lawful) (h : app.Good) (requests : Requests) {tile : TileId}
    {t : Tabs} (ht : app.tabGroup lib tile = some t) (hquiet : app.hasForwards tile = false) :
    (app.onTabClose lib requests tile).2 = requests ∧
      TabClosed lib app (app.onTabClose lib requests tile).1 tile := by
  simp only [onTabClose, hquiet, Bool.false_eq_true, if_false]
  have hroot := tabGroup_not_root hlib h ht
  have hd := hlib.dropped h.loose hroot
  refine ⟨trivial, ⟨hd.loose, fun {s} hs => ?_⟩, rfl, rfl, hroot, hquiet, fun {s} => ?_, rfl, rfl⟩
  · obtain ⟨b, hb⟩ := hs
    exact h.minted ⟨b, hd.was hb⟩
  · cases hget : app.tree.tiles.getPane tile with
    | none => simp
    | some inst =>
        simp only [AList.mem_erase, ne_eq, Option.some.injEq]
        tauto

theorem TabClosed.dropped {tile : TileId} (hc : TabClosed lib app app' tile) (hlib : lib.Lawful)
    (h : app.Good) : Dropped app.tree app'.tree tile := by
  rw [hc.tree]
  exact hlib.dropped h.loose hc.notRoot

/-- Where a closed tab takes everything below it along, it is cut out. -/
theorem TabClosed.cut {tile : TileId} (hc : TabClosed lib app app' tile) (hlib : lib.Lawful)
    (hdrops : lib.DropsSubtree) (hs : app.tree.Sound) : Cut app.tree app'.tree tile := by
  have hcut := hlib.cut hs.loose tile
  rwa [TileLib.close, if_neg hc.notRoot, ← hdrops hs, ← hc.tree] at hcut

/-- A pane below the root that is not below the closed tab stays there. -/
theorem TabClosed.carries {tile : TileId} (hc : TabClosed lib app app' tile) (hlib : lib.Lawful)
    (h : app.Good) {s : SessionId} (hs : app.tree.Carries s)
    (hout : s ∉ sessionIds app.tree.tiles tile) : app'.tree.Carries s := by
  have hd := hc.dropped hlib h
  obtain ⟨a, hr, ha⟩ := hs
  have hout' : ¬Below app.tree.tiles.arena tile a :=
    fun hbelow => hout ((hasPane_sessionIds h).mpr ⟨a, hbelow, ha⟩)
  exact ⟨a, hd.reach hr hout', hd.pane hout' ha⟩

/-- No pane below the closed tab stays below the root. -/
theorem TabClosed.removes {tile : TileId} (hc : TabClosed lib app app' tile) (hlib : lib.Lawful)
    (h : app.Good) {s : SessionId} (hmem : s ∈ sessionIds app.tree.tiles tile) :
    ¬app'.tree.Carries s := by
  have hd := hc.dropped hlib h
  rintro ⟨a, hr, ha⟩
  obtain ⟨b, hbelow, hb⟩ := (hasPane_sessionIds h).mp hmem
  obtain ⟨-, hout⟩ := hd.left hr (by rw [ha]; exact Option.some_ne_none _)
  exact hout (h.loose.only hb a (hd.was ha) ▸ hbelow)

/-- If the tile is a pane below the root, it is visible. -/
def InSight (tree : Tree) (id : TileId) : Prop :=
  ∀ s, tree.tiles.lookup id = some (.pane s) → tree.Reach id → tree.OnActivePath id

theorem inSight_of_shown {tree : Tree} {t : TileId} (h : tree.Shown t) : InSight tree t :=
  fun s hs _ => h s hs

/-- The tiles that focus may go to are visible unless they have been cut off,
and the one to close is no container. -/
structure RequestsSound (tree : Tree) (requests : Requests) : Prop where
  focus : ∀ {t}, requests.focus = some t → InSight tree t
  split : ∀ {t dir}, requests.split = some (t, dir) → InSight tree t
  openHere : ∀ {t}, requests.openHere = some t → InSight tree t
  close : ∀ {t}, requests.close = some t → tree.tiles.Bare t

theorem drawn_inSight (hlib : lib.Lawful) (h : app.Good) {tile : TileId}
    (hd : app.drawn lib tile = true) : InSight app.tree tile := by
  intro s _ _
  rw [drawn, Bool.and_eq_true, decide_eq_true_iff] at hd
  exact hlib.active h.loose hd.1

/-- An act on a tile changes the requests, or closes a tab. -/
theorem act_cases (hlib : lib.Lawful) (h : app.Good) {requests requests' : Requests}
    {a : TileAct} (hact : app.act lib requests a = some (app', requests')) :
    (app' = app ∧ (RequestsSound app.tree requests → RequestsSound app.tree requests')) ∨
      ∃ tile, a = .closeTab tile ∧ requests' = requests ∧ TabClosed lib app app' tile := by
  cases a with
  | closeTab tile =>
      obtain ⟨t, ht, heq⟩ := Option.map_eq_some_iff.mp hact
      cases hforwards : app.hasForwards tile with
      | true =>
          simp only [onTabClose, hforwards, if_true, Prod.mk.injEq] at heq
          obtain ⟨rfl, rfl⟩ := heq
          exact Or.inl ⟨rfl, fun hr => ⟨hr.focus, hr.split, hr.openHere, hr.close⟩⟩
      | false =>
          obtain ⟨hrequests, hc⟩ := onTabClose_closed hlib h requests ht hforwards
          rw [heq] at hrequests hc
          exact Or.inr ⟨tile, rfl, hrequests, hc⟩
  | click tile =>
      obtain ⟨hd, heq⟩ := Option.ite_none_right_eq_some.mp hact
      cases heq
      refine Or.inl ⟨rfl, fun hr => ⟨fun ht => ?_, hr.split, hr.openHere, hr.close⟩⟩
      exact Option.some.inj ht ▸ drawn_inSight hlib h hd
  | splitPane tile dir =>
      obtain ⟨hd, heq⟩ := Option.ite_none_right_eq_some.mp hact
      cases heq
      refine Or.inl ⟨rfl, fun hr => ⟨hr.focus, fun ht => ?_, hr.openHere, hr.close⟩⟩
      cases ht
      exact drawn_inSight hlib h hd
  | openHere tile =>
      obtain ⟨hd, heq⟩ := Option.ite_none_right_eq_some.mp hact
      cases heq
      rw [Bool.and_eq_true] at hd
      refine Or.inl ⟨rfl, fun hr => ⟨hr.focus, hr.split, fun ht => ?_, hr.close⟩⟩
      exact Option.some.inj ht ▸ drawn_inSight hlib h hd.1
  | closePane tile =>
      obtain ⟨hd, heq⟩ := Option.ite_none_right_eq_some.mp hact
      cases heq
      refine Or.inl ⟨rfl, fun hr => ⟨hr.focus, hr.split, hr.openHere, fun ht => ?_⟩⟩
      rw [drawn, Bool.and_eq_true] at hd
      exact Option.some.inj ht ▸ bare_of_isPane hd.2
  | portForwarding tile =>
      obtain ⟨-, heq⟩ := Option.ite_none_right_eq_some.mp hact
      cases heq
      exact Or.inl ⟨rfl, fun hr => ⟨hr.focus, hr.split, hr.openHere, hr.close⟩⟩
  | broadcast tile =>
      obtain ⟨-, heq⟩ := Option.ite_none_right_eq_some.mp hact
      obtain ⟨group, -, heq⟩ := Option.map_eq_some_iff.mp heq
      cases heq
      exact Or.inl ⟨rfl, fun hr => ⟨hr.focus, hr.split, hr.openHere, hr.close⟩⟩
  | selectTab group child =>
      simp only [act] at hact
      split at hact
      · obtain ⟨-, heq⟩ := Option.ite_none_right_eq_some.mp hact
        cases heq
        exact Or.inl ⟨rfl, fun hr => ⟨hr.focus, hr.split, hr.openHere, hr.close⟩⟩
      · cases hact

theorem TabClosed.inSight {tile t : TileId} (hc : TabClosed lib app app' tile)
    (hlib : lib.Lawful) (h : app.Good) (ht : InSight app.tree t) : InSight app'.tree t := by
  have hd := hc.dropped hlib h
  intro s hs hreach
  obtain ⟨hold, hout⟩ := hd.left hreach (by rw [hs]; exact Option.some_ne_none _)
  exact hd.onActivePath (ht s (hd.was hs) hold) hout

theorem TabClosed.requests {tile : TileId} {requests : Requests} (hc : TabClosed lib app app' tile)
    (hlib : lib.Lawful) (hgood : app.Good) (h : RequestsSound app.tree requests) :
    RequestsSound app'.tree requests :=
  ⟨fun ht => hc.inSight hlib hgood (h.focus ht), fun ht => hc.inSight hlib hgood (h.split ht),
    fun ht => hc.inSight hlib hgood (h.openHere ht),
    fun ht => (hc.dropped hlib hgood).bare (h.close ht)⟩

/-! ## Carrying out the requests -/

theorem applySelects_same (app : App) (selects : List (TileId × TileId)) :
    (app.applySelects selects).tree.root = app.tree.root ∧
      (app.applySelects selects).tree.tiles.arena = app.tree.tiles.arena := by
  have hfold : ∀ tree : Tree,
      (selects.foldl (fun tree select => tree.select select.1 select.2) tree).root = tree.root ∧
        (selects.foldl (fun tree select => tree.select select.1 select.2) tree).tiles.arena =
          tree.tiles.arena := by
    induction selects with
    | nil => exact fun _ => ⟨rfl, rfl⟩
    | cons select selects ih =>
        intro tree
        rw [List.foldl_cons, (ih _).1, (ih _).2, select_arena, select_root]
        exact ⟨rfl, rfl⟩
  exact hfold app.tree

theorem applySelects_keeps (h : app.Good) (selects : List (TileId × TileId)) :
    Keeps app (app.applySelects selects) := by
  obtain ⟨hroot, harena⟩ := applySelects_same app selects
  have hpanes : ∀ s, (app.applySelects selects).tree.HasPane s → app.tree.HasPane s := by
    rintro s ⟨a, ha⟩
    rw [← arena_leaf, harena, arena_leaf] at ha
    exact ⟨a, ha⟩
  exact keeps_of_same (h.loose.of_arena hroot harena) (fun hs => hs.of_arena hroot harena) h
    hpanes (fun _ hs => Tree.carries_of_arena hroot harena hs) le_rfl (fun _ => Iff.rfl) rfl

theorem openHere_keeps (env : Env) (h : app.Good) (tile : TileId) :
    Keeps app (app.openHere env tile) := by
  unfold openHere
  split
  · rename_i inst hinst
    have hget := (Option.filter_eq_some_iff.mp hinst).1
    obtain ⟨new, ho, -⟩ :=
      openSource_opens env h (.adhoc localShellSpec) ⟨tile, getPane_eq_some.mp hget⟩
    exact ho.keeps_all.trans (keeps_of_tree ho.good rfl le_rfl (fun _ => Iff.rfl) rfl)
  · exact .refl h

theorem applyOpenings_keeps (hlib : lib.Lawful) (env : Env) (h : app.Good)
    (requests : Requests) : Keeps app (app.applyOpenings lib env requests) := by
  have hfocus : Keeps app { app with focused := requests.focus.or app.focused } :=
    keeps_of_tree h rfl le_rfl (fun _ => Iff.rfl) rfl
  have hsplit : ∀ {app : App}, app.Good →
      Keeps app (requests.split.elim app fun split => app.applySplit lib split.1 split.2) := by
    intro app h
    cases requests.split with
    | none => exact .refl h
    | some split => exact (applySplit_opens hlib h split.1 split.2).keeps_all
  have hhere : ∀ {app : App}, app.Good →
      Keeps app (requests.openHere.elim app (app.openHere env)) := by
    intro app h
    cases requests.openHere with
    | none => exact .refl h
    | some tile => exact openHere_keeps env h tile
  have hboth := hfocus.trans (hsplit hfocus.good)
  exact hboth.trans (hhere hboth.good)

theorem openHere_tree (env : Env) (app : App) (tile : TileId) :
    (app.openHere env tile).tree = app.tree := by
  unfold openHere
  split
  · rename_i inst _
    rcases openSource_cases env app inst (.adhoc localShellSpec) with ⟨err, heq⟩ | ⟨onExit, heq⟩ <;>
      rw [heq]
  · rfl

/-- Of the openings only the split changes the tree. -/
theorem applyOpenings_tree (lib : TileLib) (env : Env) (app : App) (requests : Requests) :
    (app.applyOpenings lib env requests).tree =
      (requests.split.elim app fun split => app.applySplit lib split.1 split.2).tree := by
  have hsplit : ∀ focused, (requests.split.elim { app with focused := focused } fun split =>
      applySplit lib { app with focused := focused } split.1 split.2).tree =
        (requests.split.elim app fun split => app.applySplit lib split.1 split.2).tree := by
    intro focused
    cases requests.split with
    | none => rfl
    | some split =>
        simp only [Option.elim_some, applySplit, mint]
        cases app.tree.tiles.getPane split.1 <;> rfl
  unfold applyOpenings
  cases requests.openHere with
  | none => exact hsplit _
  | some tile => exact (openHere_tree env _ tile).trans (hsplit _)

/-- The openings leave the live panes as they are. -/
theorem applyOpenings_lookup (lib : TileLib) (env : Env) (app : App) (requests : Requests)
    {s : SessionId} (hs : s ∈ app.live) :
    (app.applyOpenings lib env requests).live.lookup s = app.live.lookup s := by
  have hsplit : ∀ focused, (requests.split.elim { app with focused := focused } fun split =>
      applySplit lib { app with focused := focused } split.1 split.2).live = app.live := by
    intro focused
    cases requests.split with
    | none => rfl
    | some split =>
        simp only [Option.elim_some, applySplit, mint]
        cases app.tree.tiles.getPane split.1 <;> rfl
  have hhere : ∀ app' : App, s ∈ app'.live → ∀ tile,
      (app'.openHere env tile).live.lookup s = app'.live.lookup s := by
    intro app' hs tile
    unfold openHere
    split
    · rename_i inst hinst
      have habsent := of_decide_eq_true (Option.filter_eq_some_iff.mp hinst).2
      rcases openSource_cases env app' inst (.adhoc localShellSpec) with
        ⟨err, heq⟩ | ⟨onExit, heq⟩ <;> rw [heq]
      exact AList.lookup_insert_ne fun hsame => habsent (hsame ▸ hs)
    · rfl
  unfold applyOpenings
  cases requests.openHere with
  | none => exact congrArg (AList.lookup s) (hsplit _)
  | some tile =>
      rw [← hsplit (requests.focus.or app.focused)] at hs
      exact (hhere _ hs tile).trans (congrArg (AList.lookup s) (hsplit _))

/-- What the openings leave below a tile that was no container: the pane that
is split, if it was the tile, and else no more than the tile. -/
theorem applyOpenings_below (hlib : lib.Lawful) (env : Env) (h : app.Good) {requests : Requests}
    {t : TileId} {s : SessionId} (hbare : app.tree.tiles.Bare t) (hs : app.tree.HasPane s)
    (hmem : s ∈ sessionIds (app.applyOpenings lib env requests).tree.tiles t) :
    (requests.split.map Prod.fst = some t ∧ app.tree.tiles.getPane t = some s) ∨
      (app.applyOpenings lib env requests).tree.tiles.getPane t = some s := by
  rw [applyOpenings_tree] at hmem ⊢
  cases hsplit : requests.split with
  | none =>
      simp only [hsplit, Option.elim_none] at hmem ⊢
      exact Or.inr (bare_sessionIds h hbare hmem)
  | some split =>
      simp only [hsplit, Option.elim_some] at hmem ⊢
      rcases applySplit_below hlib h hbare hs hmem with ⟨hsame, hget⟩ | hget
      · exact Or.inl ⟨congrArg some hsame, hget⟩
      · exact Or.inr hget

/-- Layout, live state and focus are left alone. -/
structure SamePanes (app app' : App) : Prop where
  tree : app'.tree = app.tree
  live : app'.live = app.live
  sources : app'.sources = app.sources
  focused : app'.focused = app.focused
  minted : app'.minted = app.minted

theorem SamePanes.refl (app : App) : SamePanes app app := ⟨rfl, rfl, rfl, rfl, rfl⟩

theorem SamePanes.trans (h : SamePanes app app') (h' : SamePanes app' app'') :
    SamePanes app app'' :=
  ⟨h'.tree.trans h.tree, h'.live.trans h.live, h'.sources.trans h.sources,
    h'.focused.trans h.focused, h'.minted.trans h.minted⟩

theorem SamePanes.keeps (h : SamePanes app app') (hgood : app.Good) : Keeps app app' :=
  keeps_of_tree hgood h.tree h.minted.ge (fun s => by rw [h.live]) h.sources

theorem SamePanes.aimed (h : SamePanes app app') (haimed : app.Aimed) : app'.Aimed := by
  intro t ht
  rw [h.tree]
  exact haimed t (h.focused ▸ ht)

theorem applyDialogs_same (app : App) (requests : Requests) :
    SamePanes app (app.applyDialogs requests) := by
  have hask : ∀ app : App, SamePanes app (requests.closeConfirm.elim app app.askClose) := by
    intro app
    cases requests.closeConfirm <;> exact ⟨rfl, rfl, rfl, rfl, rfl⟩
  have hforwards : ∀ app : App, SamePanes app (requests.forwards.elim app app.openForwards) := by
    intro app
    cases requests.forwards with
    | none => exact .refl app
    | some tile =>
        simp only [Option.elim_some, openForwards]
        split <;> exact ⟨rfl, rfl, rfl, rfl, rfl⟩
  have hbroadcast : ∀ app : App,
      SamePanes app (requests.broadcast.elim app app.toggleBroadcast) := by
    intro app
    cases requests.broadcast with
    | none => exact .refl app
    | some group =>
        simp only [Option.elim_some, toggleBroadcast]
        split <;> exact ⟨rfl, rfl, rfl, rfl, rfl⟩
  exact ((hask app).trans (hforwards _)).trans (hbroadcast _)

/-- Asked to close a tile, the app asks back, or closes it. -/
theorem requestClose_cases (hlib : lib.Lawful) (h : app.Good) (close : Option TileId) :
    (SamePanes app (close.elim app (app.requestCloseTile lib)) ∧
        ∀ t, close = some t → app.hasForwards t = true) ∨
      ∃ t, close = some t ∧ app.hasForwards t = false ∧
        Closes app (close.elim app (app.requestCloseTile lib)) t := by
  cases close with
  | none => exact Or.inl ⟨.refl app, nofun⟩
  | some t =>
      cases hforwards : app.hasForwards t with
      | true =>
          simp only [Option.elim_some, requestCloseTile, hforwards, if_true]
          refine Or.inl ⟨⟨rfl, rfl, rfl, rfl, rfl⟩, fun t' ht' => ?_⟩
          exact Option.some.inj ht' ▸ hforwards
      | false =>
          simp only [Option.elim_some, requestCloseTile, hforwards, Bool.false_eq_true, if_false]
          exact Or.inr ⟨t, rfl, hforwards, closeTile_closes hlib h t⟩

/-- At the end of a drawing the leftovers go, and the maps agree again. -/
theorem forget_agrees (h : app.Good) (hhoused : app.Housed) (hrecorded : app.Recorded) :
    app.forget.Good ∧ app.forget.Agrees := by
  refine ⟨⟨h.loose, h.minted⟩, hhoused, fun s hs => ?_, fun s hs => ?_⟩
  · obtain ⟨source, hsource⟩ := Table.mem_iff.mp (hrecorded s hs)
    exact Table.mem_retain.mpr ⟨source, hsource, decide_eq_true hs⟩
  · obtain ⟨source, -, hlive⟩ := Table.mem_retain.mp hs
    exact of_decide_eq_true hlive

/-- What one drawing of the tiles does: nothing is closed up to the close
request, and nothing after it. -/
theorem applyRequests_cases (hlib : lib.Lawful) (env : Env) (h : app.Good)
    (requests : Requests) :
    ∃ app₁ app₂, app₁ = (app.applySelects requests.selects).applyOpenings lib env requests ∧
      Keeps app app₁ ∧
      ((SamePanes app₁ app₂ ∧ ∀ t, requests.close = some t → app₁.hasForwards t = true) ∨
        ∃ t, requests.close = some t ∧ app₁.hasForwards t = false ∧ Closes app₁ app₂ t) ∧
      app.applyRequests lib env requests =
        ((app₂.applyDialogs requests).forget).validateFocus lib := by
  have hselects := applySelects_keeps h requests.selects
  have hopenings := applyOpenings_keeps hlib env hselects.good requests
  exact ⟨_, _, rfl, hselects.trans hopenings, requestClose_cases hlib hopenings.good requests.close,
    rfl⟩

/-- The end of a drawing, after the close request. -/
theorem finish_drawing (lib : TileLib) (h : app.Good) (requests : Requests) :
    let app' := ((app.applyDialogs requests).forget).validateFocus lib
    app'.Good ∧ app'.minted = app.minted ∧ app'.tree = app.tree ∧
      (app.tree.Sound → app.Housed → app.Recorded → app'.Agrees) ∧
      (lib.Lawful → app.Aimed → app'.Aimed) := by
  intro app'
  have hsame := applyDialogs_same app requests
  have hdialogs := hsame.keeps h
  have hforget : (app.applyDialogs requests).forget.Good :=
    ⟨hdialogs.good.loose, hdialogs.good.minted⟩
  obtain ⟨htree, -, -, hminted⟩ := validateFocus_tree lib (app.applyDialogs requests).forget
  refine ⟨validateFocus_good hforget, hminted.trans hsame.minted, htree.trans hsame.tree,
    fun hsound hhoused hrecorded => ?_, fun hlib haimed => validateFocus_aimed hlib hforget ?_⟩
  · obtain ⟨hgood, hagrees⟩ := forget_agrees hdialogs.good (hdialogs.housed hsound hhoused)
      (hdialogs.recorded hrecorded)
    exact (validateFocus_keeps lib hgood).agrees (hdialogs.sound hsound) hagrees
  · exact hsame.aimed haimed

/-! ## The dialogs -/

theorem showPasteConfirmDialog_keeps (h : app.Good) (input : DialogInput) :
    Keeps app (app.showPasteConfirmDialog input) ∧
      (app.Aimed → (app.showPasteConfirmDialog input).Aimed) := by
  unfold showPasteConfirmDialog
  split
  · exact ⟨.refl h, id⟩
  · rename_i pending _
    simp only
    split
    · exact ⟨keeps_of_tree h rfl le_rfl (fun _ => Iff.rfl) rfl, id⟩
    · split
      · obtain ⟨hsame, hmodes⟩ := deliverPaste_same { app with pendingPaste := none }
          pending.text pending.recipients
        exact ⟨keeps_of_tree h hsame.tree hsame.minted.ge (fun _ => hmodes.mem) hsame.sources, id⟩
      · exact ⟨keeps_of_tree h rfl le_rfl (fun _ => Iff.rfl) rfl, id⟩

theorem addFromForm_keeps (h : app.Good) (dialog : ForwardsDialog) :
    Keeps app (app.addFromForm dialog).1 ∧ (app.Aimed → (app.addFromForm dialog).1.Aimed) := by
  unfold addFromForm
  split
  · exact ⟨keeps_of_tree h rfl (Nat.le_succ _) (fun _ => Table.mem_modify) rfl, id⟩
  · exact ⟨.refl h, id⟩

theorem showForwardsDialog_keeps (h : app.Good) (input : ForwardsInput) :
    Keeps app (app.showForwardsDialog input) ∧
      (app.Aimed → (app.showForwardsDialog input).Aimed) := by
  have hremove : ∀ {app : App} (pane : SessionId), app.Good →
      Keeps app (input.remove.elim app (app.removeForward pane)) ∧
        (app.Aimed → (input.remove.elim app (app.removeForward pane)).Aimed) := by
    intro app pane h
    cases input.remove with
    | none => exact ⟨.refl h, id⟩
    | some id => exact ⟨keeps_of_tree h rfl le_rfl (fun _ => Table.mem_modify) rfl, fun ha => ha⟩
  have hadd : ∀ {app : App} (dialog : ForwardsDialog), app.Good →
      let added := if input.add then app.addFromForm dialog else (app, dialog)
      Keeps app added.1 ∧ (app.Aimed → added.1.Aimed) := by
    intro app dialog h added
    simp only [added]
    split
    · exact addFromForm_keeps h dialog
    · exact ⟨.refl h, id⟩
  unfold showForwardsDialog
  split
  · exact ⟨.refl h, id⟩
  · rename_i dialog _
    simp only
    split
    · exact ⟨keeps_of_tree h rfl le_rfl (fun _ => Iff.rfl) rfl, id⟩
    · have hclosed : Keeps app { app with forwardsDialog := none } :=
        keeps_of_tree h rfl le_rfl (fun _ => Iff.rfl) rfl
      obtain ⟨hkeeps, haimed⟩ := hremove dialog.pane hclosed.good
      obtain ⟨hkeeps', haimed'⟩ := hadd
        { dialog with form := { input.form with error := dialog.form.error } } hkeeps.good
      refine ⟨(hclosed.trans (hkeeps.trans hkeeps')).trans
        (keeps_of_tree hkeeps'.good rfl le_rfl (fun _ => Iff.rfl) rfl), fun ha => ?_⟩
      exact haimed' (haimed ha)

/-- The answer to a close question closes its tile: nothing is up there any
more, or the user confirms. -/
def answered (app : App) (pending : ConfirmClose) (input : DialogInput) : Bool :=
  app.activeForwardsAt pending.tile = 0 || (input.confirm && !input.cancel && !input.closed)

/-- The close confirmation closes nothing, or its tile. -/
theorem showConfirmCloseDialog_cases (hlib : lib.Lawful) (h : app.Good) (input : DialogInput) :
    (SamePanes app (app.showConfirmCloseDialog lib input) ∧
        ∀ pending, app.confirmClose = some pending → app.answered pending input = false) ∨
      ∃ pending, app.confirmClose = some pending ∧ app.answered pending input = true ∧
        Closes app (app.showConfirmCloseDialog lib input) pending.tile := by
  unfold showConfirmCloseDialog
  cases hpending : app.confirmClose with
  | none => exact Or.inl ⟨.refl app, nofun⟩
  | some pending =>
      have hclose : Closes app (closeTile lib { app with confirmClose := none } pending.tile)
          pending.tile := by
        have hgood : ({ app with confirmClose := none } : App).Good := ⟨h.loose, h.minted⟩
        have hc := closeTile_closes hlib hgood pending.tile
        exact ⟨hc.good, hc.minted, hc.cut, hc.live, hc.lookup, hc.sources, hc.focused⟩
      have hopen : app.activeForwardsAt pending.tile ≠ 0 →
          (input.confirm && !input.cancel && !input.closed) = false →
          ∀ pending', some pending = some pending' → app.answered pending' input = false := by
        rintro hup hstay _ ⟨⟩
        rw [answered, hstay, Bool.or_false, decide_eq_false_iff_not]
        exact hup
      simp only
      split
      · rename_i hzero
        exact Or.inr ⟨pending, rfl, by simp [answered, hzero], hclose⟩
      · rename_i hup
        split
        · rename_i hleave
          refine Or.inl ⟨⟨rfl, rfl, rfl, rfl, rfl⟩, hopen hup ?_⟩
          rw [Bool.or_eq_true] at hleave
          rcases hleave with hcancel | hclosed
          · simp [hcancel]
          · simp [hclosed]
        · rename_i hstay
          split
          · rename_i hconfirm
            rw [Bool.or_eq_true, not_or, Bool.not_eq_true, Bool.not_eq_true] at hstay
            exact Or.inr ⟨pending, rfl, by simp [answered, hconfirm, hstay], hclose⟩
          · rename_i hconfirm
            exact Or.inl ⟨.refl app, hopen hup (by simp [hconfirm])⟩

end App

/-! ## Every step -/

namespace Window

variable {lib : TileLib} {w w' : Window}

/-- What holds between any two steps: the layout is a forest under its root and
so is the saved one, what the tiles have been asked for is sound, the keyboard
finds the focus on a pane, and no session outlives the process. -/
structure Base (w : Window) : Prop where
  good : w.app.Good
  saved : ∀ layout, w.storage.layout = some layout → layout.Good w.app.minted
  requests : w.stage = .tiles → App.RequestsSound w.app.tree w.requests
  onPane : w.stage = .keyboard → ∀ t, w.app.focused = some t → w.app.tree.tiles.isPane t = true
  idle : w.stage = .stopped → ∀ s, s ∉ w.app.live

theorem base_start : start.Base :=
  ⟨App.empty_good .., nofun, nofun, nofun, fun _ s => AList.notMem_empty s⟩

/-- What a step does to the app, for the steps of a frame that close nothing;
these leave neither the tiles nor the time between two runs of the program. -/
theorem step_keeps (hlib : lib.Lawful) (h : w.Base) {a : FrameStep}
    (hstep : w.step lib a = some w') :
    w.app.Keeps w'.app ∧ w'.storage = w.storage ∧
        (w.stage = .tiles ∨ w.stage = .stopped → w'.stage = w.stage) ∨
      (∃ env initial, a = .launch env initial) ∨ a = .closeFinished ∨
      (∃ env logStarts elsewhere events, a = .keys env logStarts elsewhere events) ∨
      (∃ act, a = .act act) ∨ (∃ env, a = .drawn env) ∨ (∃ input, a = .confirmCloseDialog input) ∨
      a = .save ∨ a = .quit := by
  cases a with
  | backend s op =>
      obtain rfl := Option.some.inj hstep
      exact Or.inl ⟨App.keeps_of_tree h.good rfl le_rfl (fun _ => Table.mem_modify) rfl, rfl,
        fun _ => rfl⟩
  | pump fed =>
      obtain ⟨hstage, heq⟩ := Option.ite_none_right_eq_some.mp hstep
      obtain rfl := Option.some.inj heq
      exact Or.inl ⟨App.pump_keeps h.good fed, rfl, by simp [hstage]⟩
  | panel env actions =>
      obtain ⟨hstage, heq⟩ := Option.ite_none_right_eq_some.mp hstep
      obtain rfl := Option.some.inj heq
      exact Or.inl ⟨(App.sessionPanel_keeps hlib env h.good actions).1, rfl, by simp [hstage]⟩
  | draw env rects =>
      obtain ⟨hstage, heq⟩ := Option.ite_none_right_eq_some.mp hstep
      obtain rfl := Option.some.inj heq
      exact Or.inl ⟨(App.settle_keeps hlib h.good rects).1, rfl, by simp [hstage]⟩
  | pasteDialog input =>
      obtain ⟨hstage, heq⟩ := Option.ite_none_right_eq_some.mp hstep
      obtain rfl := Option.some.inj heq
      exact Or.inl ⟨(App.showPasteConfirmDialog_keeps h.good input).1, rfl, by simp [hstage]⟩
  | forwardsDialog input =>
      obtain ⟨hstage, heq⟩ := Option.ite_none_right_eq_some.mp hstep
      obtain rfl := Option.some.inj heq
      exact Or.inl ⟨(App.showForwardsDialog_keeps h.good input).1, rfl, by simp [hstage]⟩
  | settings choice =>
      obtain ⟨hstage, heq⟩ := Option.ite_none_right_eq_some.mp hstep
      obtain rfl := Option.some.inj heq
      cases choice with
      | none => exact Or.inl ⟨.refl h.good, rfl, by simp [hstage]⟩
      | some choice =>
          exact Or.inl ⟨App.keeps_of_tree h.good rfl le_rfl (fun _ => Iff.rfl) rfl, rfl,
            by simp [hstage]⟩
  | launch env initial => simp
  | closeFinished => simp
  | keys env logStarts elsewhere events => simp
  | act act => simp
  | drawn env => simp
  | confirmCloseDialog input => simp
  | save => simp
  | quit => simp

theorem saved_mono (h : w.Base) (hminted : w.app.minted ≤ w'.app.minted)
    (hstorage : w'.storage = w.storage) :
    ∀ layout, w'.storage.layout = some layout → layout.Good w'.app.minted := by
  intro layout hlayout
  have hsaved := h.saved layout (hstorage ▸ hlayout)
  exact ⟨hsaved.loose, fun hs => (hsaved.minted hs).trans_le hminted⟩

theorem saved_stored (h : w.Base) (layout : PersistedLayout)
    (hlayout : w.stored.layout = some layout) : layout.Good w.app.minted := by
  obtain rfl := Option.some.inj hlayout
  exact ⟨h.good.loose, h.good.minted⟩

theorem step_good (hlib : lib.Lawful) (h : w.Base) {a : FrameStep}
    (hstep : w.step lib a = some w') :
    w'.app.Good ∧ ∀ layout, w'.storage.layout = some layout → layout.Good w'.app.minted := by
  rcases step_keeps hlib h hstep with ⟨hkeeps, hstorage, -⟩ | ⟨env, initial, rfl⟩ | rfl |
    ⟨env, logStarts, elsewhere, events, rfl⟩ | ⟨act, rfl⟩ | ⟨env, rfl⟩ | ⟨input, rfl⟩ | rfl | rfl
  · exact ⟨hkeeps.good, saved_mono h hkeeps.minted hstorage⟩
  · obtain ⟨-, heq⟩ := Option.ite_none_right_eq_some.mp hstep
    obtain rfl := Option.some.inj heq
    obtain ⟨hgood, hminted, -⟩ := App.new_good hlib env w.app.minted w.storage.restoreEnabled
      w.storage.openShellOnStartup w.storage.layout initial h.saved
    exact ⟨hgood, saved_mono h hminted rfl⟩
  · obtain ⟨-, heq⟩ := Option.ite_none_right_eq_some.mp hstep
    obtain rfl := Option.some.inj heq
    obtain ⟨hgood, hminted⟩ := App.closeFinished_preserves hlib h.good
      (P := fun app => app.minted = w.app.minted) rfl
      (fun tile app app' _ hp hc => hc.minted.trans hp)
    have hvalid := App.validateFocus_keeps lib hgood
    exact ⟨hvalid.good, saved_mono h (hminted.ge.trans hvalid.minted) rfl⟩
  · obtain ⟨-, heq⟩ := Option.ite_none_right_eq_some.mp hstep
    obtain rfl := Option.some.inj heq
    rcases App.keyboard_cases lib env logStarts elsewhere h.good events with
      hkeeps | ⟨t, s, -, -, -, hclose⟩
    · exact ⟨hkeeps.good, saved_mono h hkeeps.minted rfl⟩
    · have hc := App.closeTile_closes hlib h.good t
      rw [← hclose] at hc
      exact ⟨hc.good, saved_mono h hc.minted.ge rfl⟩
  · obtain ⟨-, heq⟩ := Option.ite_none_right_eq_some.mp hstep
    obtain ⟨⟨app', requests'⟩, hact, rfl⟩ := Option.map_eq_some_iff.mp heq
    rcases App.act_cases hlib h.good hact with ⟨rfl, -⟩ | ⟨tile, -, -, hc⟩
    · exact ⟨h.good, saved_mono h le_rfl rfl⟩
    · exact ⟨hc.good, saved_mono h hc.minted.ge rfl⟩
  · obtain ⟨-, heq⟩ := Option.ite_none_right_eq_some.mp hstep
    obtain rfl := Option.some.inj heq
    obtain ⟨app₁, app₂, -, hkeeps, hclose, hdone⟩ :=
      App.applyRequests_cases hlib env h.good w.requests
    have happ₂ : app₂.Good ∧ w.app.minted ≤ app₂.minted := by
      rcases hclose with ⟨hsame, -⟩ | ⟨t, -, -, hc⟩
      · have hkeeps' := hkeeps.trans (hsame.keeps hkeeps.good)
        exact ⟨hkeeps'.good, hkeeps'.minted⟩
      · exact ⟨hc.good, hkeeps.minted.trans hc.minted.ge⟩
    obtain ⟨hgood, hminted, -⟩ := App.finish_drawing lib happ₂.1 w.requests
    rw [← hdone] at hgood hminted
    exact ⟨hgood, saved_mono h (happ₂.2.trans hminted.ge) rfl⟩
  · obtain ⟨-, heq⟩ := Option.ite_none_right_eq_some.mp hstep
    obtain rfl := Option.some.inj heq
    rcases App.showConfirmCloseDialog_cases hlib h.good input with ⟨hsame, -⟩ | ⟨pending, -, -, hc⟩
    · exact ⟨(hsame.keeps h.good).good, saved_mono h hsame.minted.ge rfl⟩
    · exact ⟨hc.good, saved_mono h hc.minted.ge rfl⟩
  · obtain ⟨-, heq⟩ := Option.ite_none_right_eq_some.mp hstep
    obtain rfl := Option.some.inj heq
    exact ⟨h.good, saved_stored h⟩
  · obtain ⟨-, heq⟩ := Option.ite_none_right_eq_some.mp hstep
    obtain rfl := Option.some.inj heq
    exact ⟨⟨h.good.loose, h.good.minted⟩, saved_stored h⟩

theorem step_requests (hlib : lib.Lawful) (h : w.Base) {a : FrameStep}
    (hstep : w.step lib a = some w') (hstage : w'.stage = .tiles) :
    App.RequestsSound w'.app.tree w'.requests := by
  cases a with
  | backend s op =>
      obtain rfl := Option.some.inj hstep
      exact h.requests hstage
  | draw env rects =>
      obtain ⟨-, heq⟩ := Option.ite_none_right_eq_some.mp hstep
      obtain rfl := Option.some.inj heq
      exact ⟨nofun, nofun, nofun, nofun⟩
  | act act =>
      obtain ⟨hstage', heq⟩ := Option.ite_none_right_eq_some.mp hstep
      obtain ⟨⟨app', requests'⟩, hact, rfl⟩ := Option.map_eq_some_iff.mp heq
      rcases App.act_cases hlib h.good hact with ⟨rfl, hkeep⟩ | ⟨tile, -, rfl, hc⟩
      · exact hkeep (h.requests hstage')
      · exact hc.requests hlib h.good (h.requests hstage')
  | save =>
      obtain ⟨hstage', heq⟩ := Option.ite_none_right_eq_some.mp hstep
      obtain rfl := Option.some.inj heq
      cases hstage'.symm.trans hstage
  | _ =>
      obtain ⟨-, heq⟩ := Option.ite_none_right_eq_some.mp hstep
      obtain rfl := Option.some.inj heq
      cases hstage

theorem step_onPane (h : w.Base) {a : FrameStep} (hstep : w.step lib a = some w')
    (hstage : w'.stage = .keyboard) {t : TileId} (ht : w'.app.focused = some t) :
    w'.app.tree.tiles.isPane t = true := by
  cases a with
  | backend s op =>
      obtain rfl := Option.some.inj hstep
      exact h.onPane hstage t ht
  | closeFinished =>
      obtain ⟨-, heq⟩ := Option.ite_none_right_eq_some.mp hstep
      obtain rfl := Option.some.inj heq
      obtain ⟨htree, -⟩ := App.validateFocus_tree lib (w.app.closeFinishedPanes lib)
      rw [next, htree]
      exact App.validateFocus_focused ht
  | act act =>
      obtain ⟨hstage', heq⟩ := Option.ite_none_right_eq_some.mp hstep
      obtain ⟨_, -, rfl⟩ := Option.map_eq_some_iff.mp heq
      cases hstage'.symm.trans hstage
  | save =>
      obtain ⟨hstage', heq⟩ := Option.ite_none_right_eq_some.mp hstep
      obtain rfl := Option.some.inj heq
      cases hstage'.symm.trans hstage
  | _ =>
      obtain ⟨-, heq⟩ := Option.ite_none_right_eq_some.mp hstep
      obtain rfl := Option.some.inj heq
      cases hstage

theorem step_idle (h : w.Base) {a : FrameStep} (hstep : w.step lib a = some w')
    (hstage : w'.stage = .stopped) (s : SessionId) : s ∉ w'.app.live := by
  cases a with
  | backend s' op =>
      obtain rfl := Option.some.inj hstep
      exact fun hs => h.idle hstage s (Table.mem_modify.mp hs)
  | quit =>
      obtain ⟨-, heq⟩ := Option.ite_none_right_eq_some.mp hstep
      obtain rfl := Option.some.inj heq
      exact AList.notMem_empty s
  | act act =>
      obtain ⟨hstage', heq⟩ := Option.ite_none_right_eq_some.mp hstep
      obtain ⟨_, -, rfl⟩ := Option.map_eq_some_iff.mp heq
      cases hstage'.symm.trans hstage
  | save =>
      obtain ⟨hstage', heq⟩ := Option.ite_none_right_eq_some.mp hstep
      obtain rfl := Option.some.inj heq
      cases hstage'.symm.trans hstage
  | _ =>
      obtain ⟨-, heq⟩ := Option.ite_none_right_eq_some.mp hstep
      obtain rfl := Option.some.inj heq
      cases hstage

theorem step_base (hlib : lib.Lawful) (h : w.Base) {a : FrameStep}
    (hstep : w.step lib a = some w') : w'.Base := by
  obtain ⟨hgood, hsaved⟩ := step_good hlib h hstep
  exact ⟨hgood, hsaved, step_requests hlib h hstep, fun hstage _ => step_onPane h hstep hstage,
    step_idle h hstep⟩

end Window

end PolyTerm
