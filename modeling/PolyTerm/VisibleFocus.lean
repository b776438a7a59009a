import PolyTerm.FrameEffects

/-!
# The focus is on a visible tab

Every operation of the app puts the focus where it has just made something
visible, or leaves it where it was, and none of them hides a visible pane.
Three things can still part focus and visible tab: a tab header, which switches
the tab and leaves the focus alone; the close button of a tab that is a
container, which leaves the panes below it behind until the next drawing, with
the focus on one of them perhaps; and a directional move, which goes by where
the panes were last laid out. `Seen` is the condition on all three; under it,
what is typed goes to a visible pane.
-/

namespace PolyTerm

open Forest Relation Tiles Runs

/-- No container shows the tile. -/
def Tree.hides (tree : Tree) (id : TileId) : Bool :=
  tree.root != some id && tree.tiles.entries.all fun e =>
    match e.2 with
    | .container c => !(decide (id ∈ c.children) && c.shows id)
    | .pane _ => true

theorem Tree.not_onActivePath {tree : Tree} {id : TileId} (h : tree.hides id = true) :
    ¬tree.OnActivePath id := by
  rw [hides, Bool.and_eq_true, bne_iff_ne] at h
  rintro ⟨r, hr, hpath⟩
  rcases ReflTransGen.cases_tail hpath with rfl | ⟨p, -, c, hc, hmem, hshows⟩
  · exact h.1 hr
  · have hentry := List.all_eq_true.mp h.2 ⟨p, .container c⟩ (AList.mem_lookup_iff.mp hc)
    simp [hmem, hshows] at hentry

namespace App

variable {lib : TileLib} {env : Env} {app app' : App} {requests : Requests}

/-! ## What is typed -/

/-- The keyboard goes to a session that runs. -/
def listening (app : App) (elsewhere : Bool) : Bool :=
  !app.dialogOpen elsewhere &&
    app.focusedSession.any fun s => !(app.live.lookup s).any (·.finished)

theorem moved_tree (app : App) (events : List InputEvent) : (app.moved events).tree = app.tree := by
  rw [moved_eq]

theorem neighbor_isPane {dir : FocusDir} {t : TileId} (h : app.neighbor dir = some t) :
    app.tree.tiles.isPane t = true := by
  obtain ⟨focused, -, h⟩ := Option.bind_eq_some_iff.mp h
  obtain ⟨origin, -, h⟩ := Option.bind_eq_some_iff.mp h
  obtain ⟨r, hmem⟩ := pickNeighbor_mem h
  obtain ⟨⟨a, tile⟩, hentry, heq⟩ := List.mem_filterMap.mp hmem
  cases tile with
  | container c => cases heq
  | pane s =>
      simp only [Option.ite_none_left_eq_some, Option.map_eq_some_iff, Prod.mk.injEq] at heq
      obtain ⟨-, _, -, rfl, -⟩ := heq
      rw [isPane, getPane_eq_some.mpr (AList.mem_lookup_iff.mpr hentry)]
      rfl

/-- Focus moves go from pane to pane. -/
theorem moved_isPane (h : ∀ t, app.focused = some t → app.tree.tiles.isPane t = true)
    (events : List InputEvent) {t : TileId} (ht : (app.moved events).focused = some t) :
    app.tree.tiles.isPane t = true := by
  induction events using List.reverseRecOn generalizing t with
  | nil => exact h t ht
  | append_singleton events e ih =>
      rw [moved_concat] at ht
      cases hmove : e.focusMove with
      | none =>
          rw [hmove] at ht
          exact ih ht
      | some dir =>
          rw [hmove] at ht
          simp only [focusNeighbor_eq, Option.or_eq_some_iff] at ht
          rcases ht with hnext | ⟨-, hstay⟩
          · rw [← moved_tree app events]
            exact neighbor_isPane hnext
          · exact ih hstay

/-- The focus moves, if they are made, end at a visible pane. -/
def MovesSeen (app : App) (elsewhere : Bool) (events : List InputEvent) : Prop :=
  app.listening elsewhere = true → ∀ t, (app.moved events).focused = some t →
    app.focused = some t ∨ app.tree.Shown t

theorem MovesSeen.shown {elsewhere : Bool} {events : List InputEvent}
    (h : app.MovesSeen elsewhere events) (haimed : app.Aimed)
    (hlistening : app.listening elsewhere = true) {t : TileId}
    (ht : (app.moved events).focused = some t) : app.tree.Shown t := by
  rcases h hlistening t ht with hstay | hshown
  · exact haimed t hstay
  · exact hshown

theorem keyboard_aimed (hlib : lib.Lawful) (env : Env) (logStarts : Bool) {elsewhere : Bool}
    (h : app.Good) (haimed : app.Aimed) {events : List InputEvent}
    (hmoves : app.MovesSeen elsewhere events) :
    (app.keyboard lib env logStarts elsewhere events).Aimed := by
  unfold keyboard
  split
  · exact haimed
  · rename_i hdialog
    cases hfocused : app.focusedSession with
    | none =>
        simp only [routeKeyboard, hfocused]
        exact haimed
    | some s =>
        cases hfinished : (app.live.lookup s).any (·.finished) with
        | true =>
            simp only [routeKeyboard, hfocused, hfinished, if_true]
            split
            · obtain ⟨_, -, htree, hfocus⟩ :=
                restartPane_opens env h (focusedSession_hasPane h hfocused)
              intro t ht
              rw [htree]
              exact haimed t (hfocus ▸ ht)
            · cases ht : app.focused with
              | none => exact haimed
              | some t => exact (closeTile_closes hlib h t).aimed haimed
            · exact haimed
        | false =>
            have hlistening : app.listening elsewhere = true := by
              simp [listening, hdialog, hfocused, hfinished]
            obtain ⟨hsame, -⟩ := routeKeyboard_same lib env logStarts app events hfocused hfinished
            intro t ht
            rw [hsame.tree, moved_tree]
            exact hmoves.shown haimed hlistening (hsame.focused ▸ ht)

/-- With no broadcast, what is typed goes to the pane the focus moves end
at. -/
theorem typed_visible (h : app.Good) (haimed : app.Aimed)
    (hpane : ∀ t, app.focused = some t → app.tree.tiles.isPane t = true)
    {logStarts elsewhere : Bool} {events : List InputEvent}
    (hmoves : app.MovesSeen elsewhere events) (hopen : app.dialogOpen elsewhere = false)
    (hnone : app.multiExec = []) {d : Delivery}
    (hd : d ∈ (app.routeKeyboard lib env logStarts events).2) (hbytes : d.bytes ≠ []) :
    ∃ t, app.tree.tiles.lookup t = some (.pane d.session) ∧ app.tree.OnActivePath t := by
  cases hfocused : app.focusedSession with
  | none =>
      simp only [routeKeyboard, hfocused, List.not_mem_nil] at hd
  | some s =>
      cases hfinished : (app.live.lookup s).any (·.finished) with
      | true =>
          simp only [routeKeyboard, hfocused, hfinished, if_true] at hd
          split at hd <;> cases hd
      | false =>
          have hlistening : app.listening elsewhere = true := by
            simp [listening, hopen, hfocused, hfinished]
          obtain ⟨e, -, hrecipient, -⟩ :=
            (app.routeKeyboard_reaches lib env logStarts events hfocused hfinished d.event
              d.session).mp ⟨d, hd, rfl, rfl, hbytes⟩
          have hfew : (app.moved events).multiExec = [] := by rw [moved_eq, hnone]
          unfold recipients at hrecipient
          cases ht : (app.moved events).focused with
          | none =>
              rw [ht] at hrecipient
              cases hrecipient
          | some t =>
              simp only [ht, moved_tree, hfew] at hrecipient
              rw [resolveRecipients_alone h.wellFormed (by simp)] at hrecipient
              have hbare := bare_of_isPane (moved_isPane hpane events ht)
              have hlookup := getPane_eq_some.mp (bare_sessionIds h hbare hrecipient)
              exact ⟨t, hlookup, hmoves.shown haimed hlistening ht _ hlookup⟩

/-! ## What the requests leave focused -/

/-- A pane without a session. -/
def isEmptyHalf (app : App) (tile : TileId) : Bool :=
  (app.tree.tiles.getPane tile).any (decide <| · ∉ app.live)

/-- The tile the requests leave focused, or leave one half of focused. -/
def aim (app : App) (requests : Requests) : Option TileId :=
  (requests.openHere.filter app.isEmptyHalf).or <|
    ((requests.split.map Prod.fst).filter app.tree.tiles.isPane).or <|
      requests.focus.or app.focused

theorem aim_inSight (hr : RequestsSound app.tree requests)
    (hfocus : ∀ t, app.focused = some t → InSight app.tree t) {t : TileId}
    (ht : app.aim requests = some t) : InSight app.tree t := by
  simp only [aim, Option.or_eq_some_iff, Option.filter_eq_some_iff, Option.map_eq_some_iff] at ht
  rcases ht with ⟨hhere, -⟩ | ⟨-, ⟨⟨⟨tile, dir⟩, hsplit, rfl⟩, -⟩ | ⟨-, hclick | ⟨-, hstays⟩⟩⟩
  · exact hr.openHere hhere
  · exact hr.split hsplit
  · exact hr.focus hclick
  · exact hfocus t hstays

theorem isEmptyHalf_iff {tile : TileId} :
    app.isEmptyHalf tile = true ↔
      ∃ inst, app.tree.tiles.lookup tile = some (.pane inst) ∧ inst ∉ app.live := by
  simp only [isEmptyHalf, Option.any_eq_true, getPane_eq_some, decide_eq_true_iff]

theorem openHere_aimed (env : Env) {tile : TileId}
    (hhere : app.isEmptyHalf tile = true → app.tree.Shown tile)
    (hother : app.isEmptyHalf tile = false → app.Aimed) : (app.openHere env tile).Aimed := by
  intro t ht
  rw [openHere_tree]
  unfold openHere at ht
  split at ht
  · rename_i inst hinst
    obtain ⟨hget, habsent⟩ := Option.filter_eq_some_iff.mp hinst
    obtain rfl := Option.some.inj ht
    exact hhere (isEmptyHalf_iff.mpr ⟨inst, getPane_eq_some.mp hget, of_decide_eq_true habsent⟩)
  · rename_i hnone
    refine hother (Bool.eq_false_iff.mpr fun hempty => ?_) t ht
    obtain ⟨inst, hlookup, habsent⟩ := isEmptyHalf_iff.mp hempty
    rw [getPane_eq_some.mpr hlookup] at hnone
    simp [habsent] at hnone

theorem applySplit_shown (hlib : lib.Lawful) (h : app.Good) {tile t : TileId} (dir : SplitDir)
    (ht : app.tree.Shown t) (hwhere : app.tree.Shown tile ∨ app.tree.tiles.lookup t ≠ none) :
    (app.applySplit lib tile dir).tree.Shown t := by
  unfold applySplit
  cases hget : app.tree.tiles.getPane tile with
  | none => exact ht
  | some held =>
      exact splitTile_shown hlib h.loose h.fresh dir (getPane_eq_some.mp hget) ht hwhere

theorem applySplit_aimed (hlib : lib.Lawful) (h : app.Good) {tile : TileId} (dir : SplitDir)
    (htile : app.tree.tiles.isPane tile = true → app.tree.Shown tile)
    (hother : app.tree.tiles.isPane tile = false → app.Aimed) :
    (app.applySplit lib tile dir).Aimed := by
  unfold applySplit
  cases hget : app.tree.tiles.getPane tile with
  | none => exact hother (by rw [isPane, hget]; rfl)
  | some held =>
      intro t ht
      obtain rfl := Option.some.inj ht
      have hshown := htile (by rw [isPane, hget]; rfl)
      exact fun _ _ => splitTile_leaf hlib h.loose h.fresh dir (getPane_eq_some.mp hget) hshown

/-- A split changes which tiles are empty halves only at its own tile, and at
ids that were free. -/
theorem applySplit_isEmptyHalf (hlib : lib.Lawful) (h : app.Good) {tile t : TileId}
    (dir : SplitDir) (ht : app.tree.tiles.lookup t ≠ none) (hne : t ≠ tile) :
    (app.applySplit lib tile dir).isEmptyHalf t = app.isEmptyHalf t := by
  unfold applySplit
  cases hget : app.tree.tiles.getPane tile with
  | none => rfl
  | some held =>
      obtain ⟨moved, c, -, hedit⟩ :=
        splitTile_edited hlib h.loose h.fresh dir (getPane_eq_some.mp hget)
      have hold := hedit.other hne fun hmem => by
        obtain ⟨e, he, rfl⟩ := List.mem_map.mp hmem
        exact ht (hedit.fresh he)
      have hpane : (splitTile lib app.tree held ⟨app.minted⟩ tile dir).2.tiles.getPane t =
          app.tree.tiles.getPane t := by rw [getPane, getPane, hold]
      exact congrArg (Option.any _) hpane

theorem applySplit_gone {tile : TileId} (dir : SplitDir)
    (htile : app.tree.tiles.isPane tile = false) : app.applySplit lib tile dir = app := by
  rw [applySplit, Option.isNone_iff_eq_none.mp (Option.isSome_eq_false_iff.mp htile)]

/-- A split, and then a pane that is filled. -/
theorem splitHere_aimed (hlib : lib.Lawful) (env : Env) (h : app.Good) (tile here : TileId)
    (dir : SplitDir)
    (hhere : app.isEmptyHalf here = true → app.tree.Shown here)
    (htile : app.isEmptyHalf here = false → app.tree.tiles.isPane tile = true →
      app.tree.Shown tile)
    (hother : app.isEmptyHalf here = false → app.tree.tiles.isPane tile = false → app.Aimed) :
    ((app.applySplit lib tile dir).openHere env here).Aimed := by
  cases hpane : app.tree.tiles.isPane tile with
  | false =>
      rw [applySplit_gone dir hpane]
      exact openHere_aimed env hhere fun hfull => hother hfull hpane
  | true =>
      -- an empty half stays one, unless it is the one that is split
      have hsame : app.isEmptyHalf here = true →
          (app.applySplit lib tile dir).isEmptyHalf here = false → here = tile := by
        intro hempty hfull
        by_contra hne
        obtain ⟨inst, hlookup, -⟩ := isEmptyHalf_iff.mp hempty
        have hpresent : app.tree.tiles.lookup here ≠ none := by simp [hlookup]
        rw [applySplit_isEmptyHalf hlib h dir hpresent hne, hempty] at hfull
        cases hfull
      refine openHere_aimed env (fun hempty' => ?_) fun hfull' => ?_
      · cases hempty : app.isEmptyHalf here with
        | true =>
            obtain ⟨inst, hlookup, -⟩ := isEmptyHalf_iff.mp hempty
            exact applySplit_shown hlib h dir (hhere hempty) (Or.inr (by simp [hlookup]))
        | false =>
            have hshown := htile hempty hpane
            refine applySplit_shown hlib h dir (fun s hs => ?_) (Or.inl hshown)
            by_cases hne : here = tile
            · rw [hne] at hs ⊢
              exact hshown s hs
            · rw [applySplit_isEmptyHalf hlib h dir (by simp [hs]) hne, hempty] at hempty'
              cases hempty'
      · refine applySplit_aimed hlib h dir (fun _ => ?_) fun hgone => ?_
        · cases hempty : app.isEmptyHalf here with
          | true => exact hsame hempty hfull' ▸ hhere hempty
          | false => exact htile hempty hpane
        · rw [hpane] at hgone
          cases hgone

theorem applyOpenings_aimed (hlib : lib.Lawful) (env : Env) (h : app.Good)
    (haim : ∀ t, app.aim requests = some t → app.tree.Shown t) :
    (app.applyOpenings lib env requests).Aimed := by
  have hfocus : ({ app with focused := requests.focus.or app.focused } : App).Good :=
    ⟨h.loose, h.minted⟩
  unfold applyOpenings
  cases hsplit : requests.split with
  | none =>
      simp only [Option.elim_none]
      cases hhere : requests.openHere with
      | none =>
          have hsame : app.aim requests = requests.focus.or app.focused := by
            simp [aim, hsplit, hhere]
          exact fun t ht => haim t (hsame.trans ht)
      | some here =>
          refine openHere_aimed env (fun (hempty : app.isEmptyHalf here = true) => ?_)
            fun (hfull : app.isEmptyHalf here = false) t ht => ?_
          · exact haim here (by simp [aim, hhere, hempty])
          · have hsame : app.aim requests = requests.focus.or app.focused := by
              simp [aim, hsplit, hhere, Option.filter_some, hfull]
            exact haim t (hsame.trans ht)
  | some split =>
      obtain ⟨tile, dir⟩ := split
      simp only [Option.elim_some]
      cases hhere : requests.openHere with
      | none =>
          refine applySplit_aimed hlib hfocus dir (fun hpane => ?_) fun hgone t ht => ?_
          · exact haim tile (by simp [aim, hsplit, hhere, hpane])
          · have hsame : app.aim requests = requests.focus.or app.focused := by
              simp [aim, hsplit, hhere, Option.filter_some, hgone]
            exact haim t (hsame.trans ht)
      | some here =>
          refine splitHere_aimed hlib env hfocus tile here dir
            (fun (hempty : app.isEmptyHalf here = true) => ?_)
            (fun (hfull : app.isEmptyHalf here = false) hpane => ?_)
            fun (hfull : app.isEmptyHalf here = false) hgone t ht => ?_
          · exact haim here (by simp [aim, hhere, hempty])
          · exact haim tile (by simp [aim, hsplit, hhere, Option.filter_some, hfull, hpane])
          · have hsame : app.aim requests = requests.focus.or app.focused := by
              simp [aim, hsplit, hhere, Option.filter_some, hfull, hgone]
            exact haim t (hsame.trans ht)

/-- What a drawing leaves focused is not hidden by a tab that is switched to in
it, nor left behind by a tab that is closed in it. -/
def DrawingSeen (app : App) (requests : Requests) : Prop :=
  ∀ t, (app.applySelects requests.selects).aim requests = some t →
    (requests.selects ≠ [] → (app.applySelects requests.selects).tree.Shown t) ∧
      (app.tree.tiles.isPane t = true → app.tree.Reach t)

theorem applyRequests_aimed (hlib : lib.Lawful) (env : Env) (h : app.Good)
    (hr : RequestsSound app.tree requests)
    (hfocus : ∀ t, app.focused = some t → InSight app.tree t)
    (hseen : app.DrawingSeen requests) : (app.applyRequests lib env requests).Aimed := by
  have haim : ∀ t, (app.applySelects requests.selects).aim requests = some t →
      (app.applySelects requests.selects).tree.Shown t := by
    intro t ht
    obtain ⟨hselects, hleft⟩ := hseen t ht
    by_cases hnone : requests.selects = []
    · rw [hnone] at ht ⊢
      intro s hs
      refine aim_inSight hr hfocus ht s hs (hleft ?_)
      exact Option.isSome_iff_exists.mpr ⟨s, getPane_eq_some.mpr hs⟩
    · exact hselects hnone
  obtain ⟨app₁, app₂, happ₁, hkeeps, hclose, hdone⟩ := applyRequests_cases hlib env h requests
  have haimed₁ : app₁.Aimed := by
    rw [happ₁]
    exact applyOpenings_aimed hlib env (applySelects_keeps h requests.selects).good haim
  rw [hdone]
  rcases hclose with ⟨hsame, -⟩ | ⟨t, -, -, hc⟩
  · exact (finish_drawing lib (hsame.keeps hkeeps.good).good requests).2.2.2.2 hlib
      (hsame.aimed haimed₁)
  · exact (finish_drawing lib hc.good requests).2.2.2.2 hlib (hc.aimed haimed₁)

end App

namespace Window

variable {lib : TileLib} {w w' : Window}

/-- Neither a directional move nor a tab that is switched to or closed takes the
focus out of sight. -/
def Seen (w : Window) : FrameStep → Prop
  | .keys _ _ elsewhere events => w.app.MovesSeen elsewhere events
  | .drawn _ => w.app.DrawingSeen w.requests
  | _ => True

/-- The focus, if it is on a pane, is visible, and so it is in the saved
layout; while the tiles are drawn it may be on what a closed tab has left
behind. -/
structure Sighted (w : Window) : Prop where
  base : w.Base
  aimed : w.stage ≠ .tiles → w.app.Aimed
  inSight : ∀ t, w.app.focused = some t → App.InSight w.app.tree t
  saved : ∀ layout, w.storage.layout = some layout → layout.Aimed

theorem sighted_of_aimed (hbase : w.Base) (h : w.app.Aimed)
    (hsaved : ∀ layout, w.storage.layout = some layout → layout.Aimed) : w.Sighted :=
  ⟨hbase, fun _ => h, fun t ht => App.inSight_of_shown (h t ht), hsaved⟩

theorem sighted_start : start.Sighted := sighted_of_aimed base_start nofun nofun

theorem stored_aimed (h : w.app.Aimed) (layout : PersistedLayout)
    (hlayout : w.stored.layout = some layout) : layout.Aimed := by
  obtain rfl := Option.some.inj hlayout
  exact h

theorem step_sighted (hlib : lib.Lawful) (h : w.Sighted) {a : FrameStep} (ha : w.Seen a)
    (hstep : w.step lib a = some w') : w'.Sighted := by
  have hbase := step_base hlib h.base hstep
  have hgood := h.base.good
  have haimed : ∀ {stage}, w.stage = stage → stage ≠ .tiles → w.app.Aimed :=
    fun hstage hne => h.aimed (hstage ▸ hne)
  cases a with
  | backend s op =>
      obtain rfl := Option.some.inj hstep
      exact ⟨hbase, h.aimed, h.inSight, h.saved⟩
  | act act =>
      obtain ⟨hstage, heq⟩ := Option.ite_none_right_eq_some.mp hstep
      obtain ⟨⟨app', requests'⟩, hact, rfl⟩ := Option.map_eq_some_iff.mp heq
      rcases App.act_cases hlib hgood hact with ⟨rfl, -⟩ | ⟨tile, -, -, hc⟩
      · exact ⟨hbase, h.aimed, h.inSight, h.saved⟩
      · exact ⟨hbase, fun hne => absurd hstage hne,
          fun t ht => hc.inSight hlib hgood (h.inSight t (hc.focused ▸ ht)), h.saved⟩
  | launch env initial =>
      obtain ⟨-, heq⟩ := Option.ite_none_right_eq_some.mp hstep
      obtain rfl := Option.some.inj heq
      exact sighted_of_aimed hbase
        ((App.new_good hlib env _ _ _ _ initial h.base.saved).2.2.2.1 h.saved) h.saved
  | pump fed =>
      obtain ⟨hstage, heq⟩ := Option.ite_none_right_eq_some.mp hstep
      obtain rfl := Option.some.inj heq
      exact sighted_of_aimed hbase (haimed hstage nofun) h.saved
  | closeFinished =>
      obtain ⟨hstage, heq⟩ := Option.ite_none_right_eq_some.mp hstep
      obtain rfl := Option.some.inj heq
      obtain ⟨hclosed, hstill⟩ := App.closeFinished_preserves hlib hgood (haimed hstage nofun)
        fun _ _ _ _ hp hc => hc.aimed hp
      exact sighted_of_aimed hbase (App.validateFocus_aimed hlib hclosed hstill) h.saved
  | keys env logStarts elsewhere events =>
      obtain ⟨hstage, heq⟩ := Option.ite_none_right_eq_some.mp hstep
      obtain rfl := Option.some.inj heq
      exact sighted_of_aimed hbase
        (App.keyboard_aimed hlib env logStarts hgood (haimed hstage nofun) ha) h.saved
  | panel env actions =>
      obtain ⟨hstage, heq⟩ := Option.ite_none_right_eq_some.mp hstep
      obtain rfl := Option.some.inj heq
      exact sighted_of_aimed hbase
        ((App.sessionPanel_keeps hlib env hgood actions).2 (haimed hstage nofun)) h.saved
  | draw env rects =>
      obtain ⟨hstage, heq⟩ := Option.ite_none_right_eq_some.mp hstep
      obtain rfl := Option.some.inj heq
      exact sighted_of_aimed hbase
        ((App.settle_keeps hlib hgood rects).2 (haimed hstage nofun)) h.saved
  | drawn env =>
      obtain ⟨hstage, heq⟩ := Option.ite_none_right_eq_some.mp hstep
      obtain rfl := Option.some.inj heq
      exact sighted_of_aimed hbase
        (App.applyRequests_aimed hlib env hgood (h.base.requests hstage) h.inSight ha) h.saved
  | pasteDialog input =>
      obtain ⟨hstage, heq⟩ := Option.ite_none_right_eq_some.mp hstep
      obtain rfl := Option.some.inj heq
      exact sighted_of_aimed hbase
        ((App.showPasteConfirmDialog_keeps hgood input).2 (haimed hstage nofun)) h.saved
  | forwardsDialog input =>
      obtain ⟨hstage, heq⟩ := Option.ite_none_right_eq_some.mp hstep
      obtain rfl := Option.some.inj heq
      exact sighted_of_aimed hbase
        ((App.showForwardsDialog_keeps hgood input).2 (haimed hstage nofun)) h.saved
  | confirmCloseDialog input =>
      obtain ⟨hstage, heq⟩ := Option.ite_none_right_eq_some.mp hstep
      obtain rfl := Option.some.inj heq
      have hshown := haimed hstage nofun
      rcases App.showConfirmCloseDialog_cases hlib hgood input with ⟨hsame, -⟩ | ⟨_, -, -, hc⟩
      · exact sighted_of_aimed hbase (hsame.aimed hshown) h.saved
      · exact sighted_of_aimed hbase (hc.aimed hshown) h.saved
  | settings choice =>
      obtain ⟨hstage, heq⟩ := Option.ite_none_right_eq_some.mp hstep
      obtain rfl := Option.some.inj heq
      refine sighted_of_aimed hbase ?_ h.saved
      cases choice with
      | none => exact haimed hstage nofun
      | some choice => exact haimed hstage nofun
  | save =>
      obtain ⟨hstage, heq⟩ := Option.ite_none_right_eq_some.mp hstep
      obtain rfl := Option.some.inj heq
      have hshown := haimed hstage nofun
      exact sighted_of_aimed hbase hshown (stored_aimed hshown)
  | quit =>
      obtain ⟨hstage, heq⟩ := Option.ite_none_right_eq_some.mp hstep
      obtain rfl := Option.some.inj heq
      have hshown := haimed hstage nofun
      exact sighted_of_aimed hbase hshown (stored_aimed hshown)

/-- What is typed goes to visible panes: when the keyboard is routed, the focus
is nowhere or on a visible pane, and without broadcast every byte goes to
one. -/
def TypesInSight (lib : TileLib) (w : Window) : Prop :=
  (∀ t, w.app.focused = some t →
      w.app.tree.tiles.isPane t = true ∧ w.app.tree.OnActivePath t) ∧
    ∀ env logStarts elsewhere events, w.Seen (.keys env logStarts elsewhere events) →
      w.app.dialogOpen elsewhere = false → w.app.multiExec = [] →
        ∀ d ∈ (w.app.routeKeyboard lib env logStarts events).2, d.bytes ≠ [] →
          ∃ t, w.app.tree.tiles.lookup t = some (.pane d.session) ∧ w.app.tree.OnActivePath t

theorem types_in_sight (hlib : lib.Lawful) {as : List FrameStep}
    (hseen : Along (step lib) Seen start as) (hrun : run (step lib) start as = some w)
    (hkeys : w.stage = .keyboard) : w.TypesInSight lib := by
  have h : w.Sighted :=
    run_invariant (fun _ _ _ h ha hstep => step_sighted hlib h ha hstep) sighted_start hseen hrun
  have hpane := h.base.onPane hkeys
  have haimed := h.aimed (hkeys ▸ nofun)
  refine ⟨fun t ht => ⟨hpane t ht, ?_⟩,
    fun env logStarts elsewhere events ha hopen hnone d hd hne => ?_⟩
  · obtain ⟨s, hs⟩ := Option.isSome_iff_exists.mp (hpane t ht)
    exact haimed t ht s (getPane_eq_some.mp hs)
  · exact App.typed_visible h.base.good haimed hpane ha hopen hnone hd hne

/-- The condition as far as it can be computed: no directional move and no switch
to another tab, and the focus stays below the root. -/
def Still (w : Window) : FrameStep → Prop
  | .keys _ _ _ events => events.filterMap InputEvent.focusMove = []
  | .drawn _ => w.requests.selects = [] ∧
      ∀ t ∈ w.app.aim w.requests, TileReference.reaches w.app.tree t = true
  | _ => True

instance (w : Window) (a : FrameStep) : Decidable (w.Still a) :=
  match a with
  | .keys .. => inferInstanceAs (Decidable (_ = _))
  | .drawn _ => inferInstanceAs (Decidable (_ ∧ ∀ t ∈ w.app.aim w.requests, _))
  | .act _ | .launch .. | .backend .. | .pump _ | .closeFinished | .panel .. | .draw ..
  | .pasteDialog _ | .forwardsDialog _ | .confirmCloseDialog _ | .settings _ | .save
  | .quit => .isTrue trivial

theorem Still.seen {a : FrameStep} (h : w.Still a) : w.Seen a := by
  cases a with
  | keys env logStarts elsewhere events =>
      intro _ t ht
      rw [App.moved, h, List.foldl_nil] at ht
      exact Or.inl ht
  | drawn env =>
      obtain ⟨hnone, hreach⟩ := h
      intro t ht
      rw [hnone] at ht
      exact ⟨fun hne => absurd hnone hne,
        fun _ => TileReference.reach_of_reaches (hreach t ht)⟩
  | _ => trivial

/-- Into the next frame, up to the keyboard. -/
def toKeyboard : List FrameStep := [.pump fun _ => .blank, .closeFinished]

/-- The first start, with the pane split; a frame later the focus is on its old
half. -/
def splitTab : List FrameStep :=
  .launch .willing localShellSpec :: frame .willing {} ++
    frame .willing { acts := [.splitPane ⟨2⟩ .right] } ++ frame .willing {}

/-- A second tab in the old half is split too. Then the new half is clicked, and
the tab that holds the second split is closed by its header. -/
def closedAside : List FrameStep :=
  splitTab ++ frame .willing { panel := [.openLocalShell] } ++
    frame .willing { acts := [.splitPane ⟨7⟩ .down] } ++ frame .willing { acts := [.click ⟨5⟩] } ++
    frame .willing { acts := [.closeTab ⟨7⟩] }

theorem types_in_sight_closedAside :
    ∃ w, run (step tileReference) start (closedAside ++ toKeyboard) = some w ∧
      w.stage = .keyboard ∧ w.app.focused = some ⟨5⟩ ∧ w.TypesInSight tileReference := by
  have hend : (run (step tileReference) start (closedAside ++ toKeyboard)).any
      (fun w => decide (w.stage = .keyboard ∧ w.app.focused = some ⟨5⟩)) = true := by
    decide +kernel
  obtain ⟨w, hrun, hw⟩ := (Option.any_eq_true _ _).mp hend
  obtain ⟨hstage, hfocused⟩ := of_decide_eq_true hw
  have hstill : Along (step tileReference) Still start (closedAside ++ toKeyboard) := by
    decide +kernel
  exact ⟨w, hrun, hstage, hfocused,
    types_in_sight tileReference_lawful (Along.mono (fun _ _ h => h.seen) hstill) hrun hstage⟩

/-- Two sessions are open, in tabs of one group; the focus is on the second. -/
def twoTabs : List FrameStep :=
  .launch .willing localShellSpec :: frame .willing {} ++
    frame .willing { panel := [.openLocalShell] }

/-- The header of the first of two tabs is clicked: the tab is switched, and the
keyboard stays with the second. The tab that holds a split is closed by its
header: the pane that is left behind keeps the keyboard. -/
theorem types_out_of_sight :
    (∃ w, run (step tileReference) start
        (twoTabs ++ frame .willing { acts := [.selectTab ⟨1⟩ ⟨2⟩] } ++ toKeyboard) = some w ∧
      w.stage = .keyboard ∧ ¬w.TypesInSight tileReference) ∧
    ∃ w, run (step tileReference) start
        (splitTab ++ frame .willing { acts := [.closeTab ⟨2⟩] } ++ toKeyboard) = some w ∧
      w.stage = .keyboard ∧ ¬w.TypesInSight tileReference := by
  constructor
  · have hend : (run (step tileReference) start
        (twoTabs ++ frame .willing { acts := [.selectTab ⟨1⟩ ⟨2⟩] } ++ toKeyboard)).any
          (fun w => decide (w.stage = .keyboard ∧ w.app.focused = some ⟨3⟩ ∧
            w.app.tree.hides ⟨3⟩ = true)) = true := by
      decide +kernel
    obtain ⟨w, hrun, hw⟩ := (Option.any_eq_true _ _).mp hend
    obtain ⟨hstage, hfocused, hhides⟩ := of_decide_eq_true hw
    exact ⟨w, hrun, hstage, fun h => Tree.not_onActivePath hhides (h.1 ⟨3⟩ hfocused).2⟩
  · have hend : (run (step tileReference) start
        (splitTab ++ frame .willing { acts := [.closeTab ⟨2⟩] } ++ toKeyboard)).any
          (fun w => decide (w.stage = .keyboard ∧ w.app.focused = some ⟨6⟩ ∧
            TileReference.reaches w.app.tree ⟨6⟩ = false)) = true := by
      decide +kernel
    obtain ⟨w, hrun, hw⟩ := (Option.any_eq_true _ _).mp hend
    obtain ⟨hstage, hfocused, hcut⟩ := of_decide_eq_true hw
    have hbase : w.Base := run_invariant
      (fun _ _ _ h _ hstep => step_base tileReference_lawful h hstep) base_start along_true hrun
    refine ⟨w, hrun, hstage, fun h => ?_⟩
    have hreach := (h.1 ⟨6⟩ hfocused).2.reach
    rw [(TileReference.reaches_iff hbase.good.loose _).mpr hreach] at hcut
    cases hcut

end Window

end PolyTerm
