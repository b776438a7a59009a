import PolyTerm.FrameEffects

/-!
# Layout and live state agree

At the end of a frame every live session has its pane in the tree, and the
live sessions are the ones that can be reopened. Closing a tile takes every
instance below it out of both maps; a tab's close button does so only for a
tab that is a pane. So the agreement holds in every run that closes no tab
with a live session further down (`NoLiveBelow`).

Between the drawing of a tile and the end of the drawing, and once the process
has ended, sources may be left over from sessions that are gone.

The library takes a tab's whole subtree out when the tab is closed
(`TileLib.DropsSubtree`), so every tile hangs below the root at all times.
-/

namespace PolyTerm

open Forest Tiles Runs

/-- No sources are left over from sessions that are gone. -/
def Stage.swept : Stage → Bool
  | .stopped | .tiles => false
  | _ => true

namespace App

variable {lib : TileLib} {app app' : App} {tile : TileId}

theorem TabClosed.housed (hc : TabClosed lib app app' tile) (hlib : lib.Lawful)
    (hdrops : lib.DropsSubtree) (hgood : app.Good) (hsound : app.tree.Sound)
    (hbelow : app.tree.tiles.isPane tile = false →
      ∀ s ∈ sessionIds app.tree.tiles tile, s ∉ app.live)
    (h : app.Housed) : app'.Housed := by
  intro s hs
  obtain ⟨hlive, hother⟩ := hc.live.mp hs
  refine cut_keeps (hc.cut hlib hdrops hsound) hgood (h s hlive) fun hmem => ?_
  cases hpane : app.tree.tiles.isPane tile with
  | false => exact hbelow hpane s hmem hlive
  | true => exact hother (bare_sessionIds hgood (bare_of_isPane hpane) hmem)

theorem TabClosed.recorded (hc : TabClosed lib app app' tile) (h : app.Recorded) :
    app'.Recorded := by
  intro s hs
  rw [hc.sources]
  exact h s (hc.live.mp hs).1

end App

namespace Window

variable {lib : TileLib} {w w' : Window}

/-- A close button pressed on a tab that is no pane has no live session
below. -/
def NoLiveBelow (w : Window) (a : FrameStep) : Prop :=
  ∀ tile ∈ a.closedTab, w.app.tree.tiles.isPane tile = false →
    ∀ s ∈ sessionIds w.app.tree.tiles tile, s ∉ w.app.live

instance (w : Window) (a : FrameStep) : Decidable (w.NoLiveBelow a) :=
  inferInstanceAs (Decidable (∀ tile ∈ a.closedTab, _ → _))

/-- Every tile hangs below the root, in the saved layout too. -/
structure Whole (w : Window) : Prop where
  sound : w.app.tree.Sound
  saved : ∀ layout, w.storage.layout = some layout → layout.tree.Sound

theorem whole_start : start.Whole := ⟨Tree.sound_empty, nofun⟩

theorem stored_sound (h : w.app.tree.Sound) (layout : PersistedLayout)
    (hlayout : w.stored.layout = some layout) : layout.tree.Sound := by
  obtain rfl := Option.some.inj hlayout
  exact h

theorem step_whole (hlib : lib.Lawful) (hdrops : lib.DropsSubtree) (hbase : w.Base) (h : w.Whole)
    {a : FrameStep} (hstep : w.step lib a = some w') : w'.Whole := by
  have hgood := hbase.good
  have hsound := h.sound
  rcases step_keeps hlib hbase hstep with ⟨hkeeps, hstorage, -⟩ | ⟨env, initial, rfl⟩ | rfl |
    ⟨env, logStarts, elsewhere, events, rfl⟩ | ⟨act, rfl⟩ | ⟨env, rfl⟩ | ⟨input, rfl⟩ | rfl | rfl
  · exact ⟨hkeeps.sound hsound, fun layout hlayout => h.saved layout (hstorage ▸ hlayout)⟩
  · obtain ⟨-, heq⟩ := Option.ite_none_right_eq_some.mp hstep
    obtain rfl := Option.some.inj heq
    exact ⟨(App.new_good hlib env _ _ _ _ initial hbase.saved).2.2.2.2 h.saved, h.saved⟩
  · obtain ⟨-, heq⟩ := Option.ite_none_right_eq_some.mp hstep
    obtain rfl := Option.some.inj heq
    obtain ⟨hclosed, hstill⟩ := App.closeFinished_preserves hlib hgood
      (P := fun app => app.tree.Sound) hsound fun _ _ _ _ hp hc => hc.cut.sound hp
    exact ⟨(App.validateFocus_keeps lib hclosed).sound hstill, h.saved⟩
  · obtain ⟨-, heq⟩ := Option.ite_none_right_eq_some.mp hstep
    obtain rfl := Option.some.inj heq
    rcases App.keyboard_cases lib env logStarts elsewhere hgood events with
      hkeeps | ⟨t, s, -, -, -, hclose⟩
    · exact ⟨hkeeps.sound hsound, h.saved⟩
    · refine ⟨?_, h.saved⟩
      rw [next, hclose]
      exact (App.closeTile_closes hlib hgood t).cut.sound hsound
  · obtain ⟨-, heq⟩ := Option.ite_none_right_eq_some.mp hstep
    obtain ⟨⟨app', requests'⟩, hact, rfl⟩ := Option.map_eq_some_iff.mp heq
    rcases App.act_cases hlib hgood hact with ⟨rfl, -⟩ | ⟨tile, -, -, hc⟩
    · exact ⟨hsound, h.saved⟩
    · exact ⟨(hc.cut hlib hdrops hsound).sound hsound, h.saved⟩
  · obtain ⟨-, heq⟩ := Option.ite_none_right_eq_some.mp hstep
    obtain rfl := Option.some.inj heq
    obtain ⟨app₁, app₂, -, hkeeps, hclose, hdone⟩ :=
      App.applyRequests_cases hlib env hgood w.requests
    have happ₂ : app₂.Good ∧ app₂.tree.Sound := by
      rcases hclose with ⟨hsame, -⟩ | ⟨t, -, -, hc⟩
      · have hkeeps' := hsame.keeps hkeeps.good
        exact ⟨hkeeps'.good, hkeeps'.sound (hkeeps.sound hsound)⟩
      · exact ⟨hc.good, hc.cut.sound (hkeeps.sound hsound)⟩
    obtain ⟨-, -, htree, -⟩ := App.finish_drawing lib happ₂.1 w.requests
    rw [← hdone] at htree
    exact ⟨htree ▸ happ₂.2, h.saved⟩
  · obtain ⟨-, heq⟩ := Option.ite_none_right_eq_some.mp hstep
    obtain rfl := Option.some.inj heq
    rcases App.showConfirmCloseDialog_cases hlib hgood input with ⟨hsame, -⟩ | ⟨_, -, -, hc⟩
    · exact ⟨(hsame.keeps hgood).sound hsound, h.saved⟩
    · exact ⟨hc.cut.sound hsound, h.saved⟩
  · obtain ⟨-, heq⟩ := Option.ite_none_right_eq_some.mp hstep
    obtain rfl := Option.some.inj heq
    exact ⟨hsound, stored_sound hsound⟩
  · obtain ⟨-, heq⟩ := Option.ite_none_right_eq_some.mp hstep
    obtain rfl := Option.some.inj heq
    exact ⟨hsound, stored_sound hsound⟩

/-- The agreement, as far as it holds between any two steps. -/
structure InStep (w : Window) : Prop where
  base : w.Base
  whole : w.Whole
  housed : w.app.Housed
  recorded : w.app.Recorded
  current : w.stage.swept = true → w.app.Current

theorem inStep_start : start.InStep :=
  ⟨base_start, whole_start, fun s hs => absurd hs (AList.notMem_empty s),
    fun s hs => absurd hs (AList.notMem_empty s), nofun⟩

theorem InStep.agrees (h : w.InStep) (hswept : w.stage.swept = true) : w.app.Agrees :=
  ⟨h.housed, h.recorded, h.current hswept⟩

theorem inStep_of_agrees (hbase : w.Base) (hwhole : w.Whole) (h : w.app.Agrees) : w.InStep :=
  ⟨hbase, hwhole, h.housed, h.recorded, fun _ => h.current⟩

theorem step_inStep (hlib : lib.Lawful) (hdrops : lib.DropsSubtree) (h : w.InStep) {a : FrameStep}
    (ha : w.NoLiveBelow a) (hstep : w.step lib a = some w') : w'.InStep := by
  have hbase := step_base hlib h.base hstep
  have hwhole := step_whole hlib hdrops h.base h.whole hstep
  have hgood := h.base.good
  have hsound := h.whole.sound
  rcases step_keeps hlib h.base hstep with ⟨hkeeps, -, hstays⟩ | ⟨env, initial, rfl⟩ | rfl |
    ⟨env, logStarts, elsewhere, events, rfl⟩ | ⟨act, rfl⟩ | ⟨env, rfl⟩ | ⟨input, rfl⟩ | rfl | rfl
  · refine ⟨hbase, hwhole, hkeeps.housed hsound h.housed, hkeeps.recorded h.recorded,
      fun hswept => ?_⟩
    refine hkeeps.current (h.current ?_)
    cases hstage : w.stage with
    | tiles => rwa [hstays (Or.inl hstage), hstage] at hswept
    | stopped => rwa [hstays (Or.inr hstage), hstage] at hswept
    | _ => rfl
  · obtain ⟨-, heq⟩ := Option.ite_none_right_eq_some.mp hstep
    obtain rfl := Option.some.inj heq
    exact inStep_of_agrees hbase hwhole
      (App.new_good hlib env _ _ _ _ initial h.base.saved).2.2.1
  · obtain ⟨hstage, heq⟩ := Option.ite_none_right_eq_some.mp hstep
    obtain rfl := Option.some.inj heq
    obtain ⟨hclosed, hagrees, hstill⟩ := App.closeFinished_preserves hlib hgood
      (P := fun app => app.Agrees ∧ app.tree.Sound) ⟨h.agrees (hstage ▸ rfl), hsound⟩
      fun _ _ _ hgood hp hc => ⟨hc.agrees hgood hp.1, hc.cut.sound hp.2⟩
    exact inStep_of_agrees hbase hwhole
      ((App.validateFocus_keeps lib hclosed).agrees hstill hagrees)
  · obtain ⟨hstage, heq⟩ := Option.ite_none_right_eq_some.mp hstep
    obtain rfl := Option.some.inj heq
    have hagrees := h.agrees (hstage ▸ rfl)
    rcases App.keyboard_cases lib env logStarts elsewhere hgood events with
      hkeeps | ⟨t, s, -, -, -, hclose⟩
    · exact inStep_of_agrees hbase hwhole (hkeeps.agrees hsound hagrees)
    · refine inStep_of_agrees hbase hwhole ?_
      rw [next, hclose]
      exact (App.closeTile_closes hlib hgood t).agrees hgood hagrees
  · obtain ⟨hstage, heq⟩ := Option.ite_none_right_eq_some.mp hstep
    obtain ⟨⟨app', requests'⟩, hact, rfl⟩ := Option.map_eq_some_iff.mp heq
    have hunswept : w.stage.swept ≠ true := by simp [hstage, Stage.swept]
    rcases App.act_cases hlib hgood hact with ⟨rfl, -⟩ | ⟨tile, rfl, -, hc⟩
    · exact ⟨hbase, hwhole, h.housed, h.recorded, fun hswept => absurd hswept hunswept⟩
    · exact ⟨hbase, hwhole, hc.housed hlib hdrops hgood hsound (ha tile rfl) h.housed,
        hc.recorded h.recorded, fun hswept => absurd hswept hunswept⟩
  · obtain ⟨-, heq⟩ := Option.ite_none_right_eq_some.mp hstep
    obtain rfl := Option.some.inj heq
    obtain ⟨app₁, app₂, -, hkeeps, hclose, hdone⟩ :=
      App.applyRequests_cases hlib env hgood w.requests
    have happ₂ : app₂.Good ∧ app₂.tree.Sound ∧ app₂.Housed ∧ app₂.Recorded := by
      have hhoused := hkeeps.housed hsound h.housed
      have hrecorded := hkeeps.recorded h.recorded
      have hsound₁ := hkeeps.sound hsound
      rcases hclose with ⟨hsame, -⟩ | ⟨t, -, -, hc⟩
      · have hkeeps' := hsame.keeps hkeeps.good
        exact ⟨hkeeps'.good, hkeeps'.sound hsound₁, hkeeps'.housed hsound₁ hhoused,
          hkeeps'.recorded hrecorded⟩
      · exact ⟨hc.good, hc.cut.sound hsound₁, hc.housed hkeeps.good hhoused,
          hc.recorded hrecorded⟩
    obtain ⟨-, -, -, hagrees, -⟩ := App.finish_drawing lib happ₂.1 w.requests
    rw [← hdone] at hagrees
    exact inStep_of_agrees hbase hwhole (hagrees happ₂.2.1 happ₂.2.2.1 happ₂.2.2.2)
  · obtain ⟨hstage, heq⟩ := Option.ite_none_right_eq_some.mp hstep
    obtain rfl := Option.some.inj heq
    have hagrees := h.agrees (hstage ▸ rfl)
    rcases App.showConfirmCloseDialog_cases hlib hgood input with ⟨hsame, -⟩ | ⟨pending, -, -, hc⟩
    · exact inStep_of_agrees hbase hwhole ((hsame.keeps hgood).agrees hsound hagrees)
    · exact inStep_of_agrees hbase hwhole (hc.agrees hgood hagrees)
  · obtain ⟨-, heq⟩ := Option.ite_none_right_eq_some.mp hstep
    obtain rfl := Option.some.inj heq
    exact ⟨hbase, hwhole, h.housed, h.recorded, h.current⟩
  · obtain ⟨-, heq⟩ := Option.ite_none_right_eq_some.mp hstep
    obtain rfl := Option.some.inj heq
    exact ⟨hbase, hwhole, fun s hs => absurd hs (AList.notMem_empty s),
      fun s hs => absurd hs (AList.notMem_empty s),
      fun hswept => absurd hswept Bool.false_ne_true⟩

theorem run_inStep (hlib : lib.Lawful) (hdrops : lib.DropsSubtree) {as : List FrameStep}
    (hcalm : Along (step lib) NoLiveBelow start as) (hrun : run (step lib) start as = some w) :
    w.InStep :=
  run_invariant (fun _ _ _ h ha hstep => step_inStep hlib hdrops h ha hstep) inStep_start hcalm
    hrun

/-- At the end of a frame every live session has its pane, and the live
sessions are the ones with a source. -/
theorem live_agrees (hlib : lib.Lawful) (hdrops : lib.DropsSubtree) {as : List FrameStep}
    (hcalm : Along (step lib) NoLiveBelow start as) (hrun : run (step lib) start as = some w)
    (hend : w.stage = .pump) :
    (∀ s ∈ w.app.live, w.app.tree.HasPane s) ∧ ∀ s, s ∈ w.app.live ↔ s ∈ w.app.sources := by
  have hagrees := (run_inStep hlib hdrops hcalm hrun).agrees (hend ▸ rfl)
  exact ⟨hagrees.housed, fun s => ⟨hagrees.recorded s, hagrees.current s⟩⟩

/-- The library that takes a closed tab's whole subtree out. -/
def wholeTabs : TileLib := tileReference.dropWhole

theorem wholeTabs_lawful : wholeTabs.Lawful := tileReference_lawful.dropWhole

/-- Two local shells in tabs. The second tab's pane is split, and its own tab
closed by the header; then the tab that holds the split is, with only the
empty half left in it. -/
def closedTabs : List FrameStep :=
  .launch .willing localShellSpec :: frame .willing {} ++
    frame .willing { panel := [.openLocalShell] } ++
    frame .willing { acts := [.splitPane ⟨3⟩ .right] } ++
    frame .willing { acts := [.closeTab ⟨7⟩] } ++ frame .willing { acts := [.closeTab ⟨3⟩] }

theorem live_agrees_closedTabs :
    ∃ w, run (step wholeTabs) start closedTabs = some w ∧
      (∀ s ∈ w.app.live, w.app.tree.HasPane s) ∧ ∀ s, s ∈ w.app.live ↔ s ∈ w.app.sources := by
  have hend : (run (step wholeTabs) start closedTabs).any
      (fun w => decide (w.stage = .pump)) = true := by decide +kernel
  obtain ⟨w, hrun, hstage⟩ := (Option.any_eq_true _ _).mp hend
  exact ⟨w, hrun, live_agrees wholeTabs_lawful tileReference.dropWhole_dropsSubtree
    (by decide +kernel) hrun (of_decide_eq_true hstage)⟩

/-- The first start, and two frames: nothing in the first, a split in the
second. -/
def splitRun : List FrameStep :=
  .launch .willing localShellSpec :: frame .willing {} ++
    frame .willing { acts := [.splitPane ⟨2⟩ .right] }

/-- The close button of the tab that a split made leaves a session running
that has no pane. -/
theorem live_orphaned_closedTab :
    ¬∀ (as : List FrameStep) (w : Window), run (step wholeTabs) start as = some w →
      w.stage = .pump →
      (∀ s ∈ w.app.live, w.app.tree.HasPane s) ∧ ∀ s, s ∈ w.app.live ↔ s ∈ w.app.sources := by
  intro h
  have hend : (run (step wholeTabs) start
      (splitRun ++ frame .willing { acts := [.closeTab ⟨2⟩] })).any
        (fun w => decide (w.stage = .pump ∧ ⟨0⟩ ∈ w.app.live ∧ ¬w.app.tree.HasPane ⟨0⟩)) = true := by
    decide +kernel
  obtain ⟨w, hrun, hw⟩ := (Option.any_eq_true _ _).mp hend
  obtain ⟨hstage, hlive, hgone⟩ := of_decide_eq_true hw
  exact hgone ((h _ w hrun hstage).1 ⟨0⟩ hlive)

end Window

end PolyTerm
