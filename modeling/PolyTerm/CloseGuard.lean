import PolyTerm.FrameEffects

/-!
# Closing a pane that has tunnels up

Before a pane with port forwards up is closed, the user is asked. A pane's own
close button and a tab's ask about the tile's pane; what else hangs below the
tile is closed with it unasked. The question remembers a tile: when the tile
is no longer a pane, it counts no forwards there, and closes it.

`ClosesNoTunnel` says what a step would have to avoid, and with it every pane
with tunnels up stays until its own question is answered (`tunnels_kept`). A
pane is in the tree as long as it hangs below the root: what is left behind of
a closed tab is not.
-/

namespace PolyTerm

open Forest Tiles Runs

namespace App

variable {lib : TileLib} {app app' : App} {tile : TileId} {s : SessionId}

/-- The session has not ended, and has tunnels up. -/
def tunneling (app : App) (s : SessionId) : Bool :=
  (app.live.lookup s).any fun live => !live.finished && decide (0 < live.activeForwardCount)

theorem tunneling_lookup (h : app.tunneling s = true) :
    ∃ live, app.live.lookup s = some live ∧ live.finished = false ∧
      0 < live.activeForwardCount := by
  obtain ⟨live, hlive, hup⟩ := (Option.any_eq_true _ _).mp h
  rw [Bool.and_eq_true, Bool.not_eq_true', decide_eq_true_iff] at hup
  exact ⟨live, hlive, hup⟩

theorem tunneling_live (h : app.tunneling s = true) : s ∈ app.live := by
  obtain ⟨live, hlive, -⟩ := tunneling_lookup h
  exact Table.mem_iff.mpr ⟨live, hlive⟩

/-- The pane's own close button would ask. -/
theorem tunneling_hasForwards (h : app.tunneling s = true)
    (ht : app.tree.tiles.getPane tile = some s) : app.hasForwards tile = true := by
  obtain ⟨live, hlive, -, hup⟩ := tunneling_lookup h
  rw [hasForwards, paneAt, ht, Option.bind_some, hlive]
  exact decide_eq_true hup

theorem tunneling_forwardsAt (h : app.tunneling s = true)
    (ht : app.tree.tiles.getPane tile = some s) : app.activeForwardsAt tile ≠ 0 := by
  obtain ⟨live, hlive, -, hup⟩ := tunneling_lookup h
  rw [activeForwardsAt, paneAt, ht, Option.bind_some, hlive]
  exact Nat.ne_of_gt hup

/-- Only a pane has forwards. -/
theorem hasForwards_none (ht : app.tree.tiles.getPane tile = none) :
    app.hasForwards tile = false := by
  rw [hasForwards, paneAt, ht]
  rfl

theorem forwardsAt_isPane (h : app.activeForwardsAt tile ≠ 0) :
    app.tree.tiles.isPane tile = true := by
  cases ht : app.tree.tiles.getPane tile with
  | none =>
      rw [activeForwardsAt, paneAt, ht] at h
      exact absurd rfl h
  | some s => rw [isPane, ht, Option.isSome_some]

/-- No pane of the tree with tunnels up is below the tile. -/
def Idle (app : App) (tile : TileId) : Prop :=
  ∀ s ∈ sessionIds app.tree.tiles tile, app.tree.Carries s → app.tunneling s = false

/-! ## What each stage leaves of a pane with tunnels up -/

/-- The keyboard closes the focused pane only, and only when its session has
ended. -/
theorem keyboard_tunneling (hlib : lib.Lawful) (env : Env) (logStarts elsewhere : Bool)
    (h : app.Good) (events : List InputEvent)
    (hpane : ∀ t, app.focused = some t → app.tree.tiles.isPane t = true)
    (hs : app.tree.Carries s) (hup : app.tunneling s = true) :
    (app.keyboard lib env logStarts elsewhere events).tree.Carries s := by
  rcases keyboard_cases lib env logStarts elsewhere h events with
    hkeeps | ⟨t, s', ht, hfocused, hfinished, hclose⟩
  · exact hkeeps.panes hs
  · have hc := closeTile_closes hlib h t
    have hbare := bare_of_isPane (hpane t ht)
    rw [hclose]
    refine cut_carries hc.cut h hs fun hmem => ?_
    -- the tile is the pane whose session has ended
    rw [focusedSession, ht, Option.bind_some] at hfocused
    have hsame := bare_sessionIds h hbare (List.mem_of_mem_head? hfocused)
    rw [bare_sessionIds h hbare hmem] at hsame
    obtain rfl := Option.some.inj hsame
    obtain ⟨live, hlive, hrunning, -⟩ := tunneling_lookup hup
    rw [hlive, Option.any_some, hrunning] at hfinished
    cases hfinished

theorem tabClosed_tunneling (hlib : lib.Lawful) (h : app.Good) (hc : TabClosed lib app app' tile)
    (hidle : app.tree.tiles.isPane tile = false → app.Idle tile) (hs : app.tree.Carries s)
    (hup : app.tunneling s = true) : app'.tree.Carries s := by
  refine hc.carries hlib h hs fun hmem => ?_
  cases hpane : app.tree.tiles.isPane tile with
  | false =>
      rw [hidle hpane s hmem hs] at hup
      cases hup
  | true =>
      have hget := bare_sessionIds h (bare_of_isPane hpane) hmem
      cases (tunneling_hasForwards hup hget).symm.trans hc.quiet

/-- A drawing closes a tile without tunnels up, unless the tile has just been
split. -/
theorem applyRequests_tunneling (hlib : lib.Lawful) (env : Env) (h : app.Good)
    {requests : Requests} (hbare : ∀ t, requests.close = some t → app.tree.tiles.Bare t)
    (hidle : ∀ tile ∈ requests.close, requests.split.map Prod.fst = some tile → app.Idle tile)
    (hs : app.tree.Carries s) (hup : app.tunneling s = true) :
    (app.applyRequests lib env requests).tree.Carries s := by
  obtain ⟨app₁, app₂, happ₁, hkeeps, hclose, hdone⟩ := applyRequests_cases hlib env h requests
  rcases hclose with ⟨hsame, -⟩ | ⟨t, ht, hquiet, hc⟩
  · have htree := (finish_drawing lib (hsame.keeps hkeeps.good).good requests).2.2.1
    rw [hdone, htree, hsame.tree]
    exact hkeeps.panes hs
  · have htree := (finish_drawing lib hc.good requests).2.2.1
    rw [hdone, htree]
    refine cut_carries hc.cut hkeeps.good (hkeeps.panes hs) fun hmem => ?_
    have hselects := applySelects_keeps h requests.selects
    have harena := (applySelects_same app requests.selects).2
    rw [happ₁] at hmem
    rcases applyOpenings_below hlib env hselects.good ((hbare t ht).of_arena harena)
      (hselects.panes hs).hasPane hmem with ⟨hsplit, hget⟩ | hget
    · rw [getPane_eq_some, ← arena_leaf, harena, arena_leaf] at hget
      rw [hidle t ht hsplit s ((hasPane_sessionIds h).mpr ⟨t, .refl, hget⟩) hs] at hup
      cases hup
    · rw [← happ₁] at hget
      have hlookup : app₁.live.lookup s = app.live.lookup s :=
        happ₁ ▸ applyOpenings_lookup lib env (app.applySelects requests.selects) requests
          (tunneling_live hup)
      have hup₁ : app₁.tunneling s = true := by rwa [tunneling, hlookup]
      cases (tunneling_hasForwards hup₁ hget).symm.trans hquiet

end App

namespace Window

variable {lib : TileLib} {w w' : Window}

/-- The step takes no pane with tunnels up out of the tree, save the one a
question was raised for. -/
def ClosesNoTunnel (w : Window) : FrameStep → Prop
  | .act (.closeTab tile) => w.app.tree.tiles.isPane tile = false → w.app.Idle tile
  | .drawn _ => ∀ tile ∈ w.requests.close, w.requests.split.map Prod.fst = some tile →
      w.app.Idle tile
  | .confirmCloseDialog input => ∀ pending ∈ w.app.confirmClose,
      w.app.answered pending input = true →
        ∀ s ∈ sessionIds w.app.tree.tiles pending.tile, w.app.tree.Carries s →
          w.app.tunneling s = true →
            w.app.tree.tiles.getPane pending.tile = some s ∧ pending.raisedFor = some s
  | _ => True

/-- "Close anyway" is pressed, and the question was raised for `s`. -/
def Confirmed (w : Window) (s : SessionId) (a : FrameStep) : Prop :=
  ∃ input tile, a = .confirmCloseDialog input ∧ w.app.confirmClose = some ⟨tile, some s⟩ ∧
    w.app.activeForwardsAt tile ≠ 0 ∧
      input.confirm = true ∧ input.cancel = false ∧ input.closed = false

/-- The step takes a pane with tunnels up out of the tree only if the user
confirmed it. -/
def TunnelsKept (lib : TileLib) (w : Window) (a : FrameStep) : Prop :=
  ∀ w', w.step lib a = some w' → ∀ s, w.app.tunneling s = true → w.app.tree.Carries s →
    w'.app.tree.Carries s ∨ w.Confirmed s a

theorem step_tunnelsKept (hlib : lib.Lawful) (h : w.Base) {a : FrameStep}
    (ha : w.ClosesNoTunnel a) : w.TunnelsKept lib a := by
  intro w' hstep s hup hs
  have hgood := h.good
  rcases step_keeps hlib h hstep with ⟨hkeeps, -⟩ | ⟨env, initial, rfl⟩ | rfl |
    ⟨env, logStarts, elsewhere, events, rfl⟩ | ⟨act, rfl⟩ | ⟨env, rfl⟩ | ⟨input, rfl⟩ | rfl | rfl
  · exact Or.inl (hkeeps.panes hs)
  · obtain ⟨hstage, -⟩ := Option.ite_none_right_eq_some.mp hstep
    exact absurd (App.tunneling_live hup) (h.idle hstage s)
  · obtain ⟨-, heq⟩ := Option.ite_none_right_eq_some.mp hstep
    obtain rfl := Option.some.inj heq
    obtain ⟨live, hlive, hrunning, -⟩ := App.tunneling_lookup hup
    refine Or.inl ?_
    rw [next, (App.validateFocus_tree lib _).1]
    refine App.closeFinishedPanes_keeps hlib hgood hs ?_
    rw [hlive, Option.any_some, App.closesOnExit, hrunning, Bool.false_and]
  · obtain ⟨hstage, heq⟩ := Option.ite_none_right_eq_some.mp hstep
    obtain rfl := Option.some.inj heq
    exact Or.inl (App.keyboard_tunneling hlib env logStarts elsewhere hgood events
      (h.onPane hstage) hs hup)
  · obtain ⟨-, heq⟩ := Option.ite_none_right_eq_some.mp hstep
    obtain ⟨⟨app', requests'⟩, hact, rfl⟩ := Option.map_eq_some_iff.mp heq
    rcases App.act_cases hlib hgood hact with ⟨rfl, -⟩ | ⟨tile, rfl, -, hc⟩
    · exact Or.inl hs
    · exact Or.inl (App.tabClosed_tunneling hlib hgood hc ha hs hup)
  · obtain ⟨hstage, heq⟩ := Option.ite_none_right_eq_some.mp hstep
    obtain rfl := Option.some.inj heq
    exact Or.inl (App.applyRequests_tunneling hlib env hgood
      (fun t ht => (h.requests hstage).close ht) ha hs hup)
  · obtain ⟨-, heq⟩ := Option.ite_none_right_eq_some.mp hstep
    obtain rfl := Option.some.inj heq
    rw [next]
    rcases App.showConfirmCloseDialog_cases hlib hgood input with
      ⟨hsame, -⟩ | ⟨pending, hpending, hanswered, hc⟩
    · rw [hsame.tree]
      exact Or.inl hs
    · by_cases hmem : s ∈ sessionIds w.app.tree.tiles pending.tile
      · obtain ⟨hget, hraised⟩ := ha pending hpending hanswered s hmem hs hup
        have hshown := App.tunneling_forwardsAt hup hget
        refine Or.inr ⟨input, pending.tile, rfl, ?_, hshown, ?_⟩
        · rw [hpending, ← hraised]
        · simpa [App.answered, hshown, and_assoc] using hanswered
      · exact Or.inl (App.cut_carries hc.cut hgood hs hmem)
  · obtain ⟨-, heq⟩ := Option.ite_none_right_eq_some.mp hstep
    obtain rfl := Option.some.inj heq
    exact Or.inl hs
  · obtain ⟨-, heq⟩ := Option.ite_none_right_eq_some.mp hstep
    obtain rfl := Option.some.inj heq
    exact Or.inl hs

/-- The condition is exact: a step that does not meet it takes a pane with
tunnels up away. -/
theorem closesNoTunnel_of_kept (hlib : lib.Lawful) (h : w.Base) {a : FrameStep}
    (hstep : w.step lib a = some w') (hkept : w.TunnelsKept lib a) : w.ClosesNoTunnel a := by
  have hgood := h.good
  cases a with
  | act act =>
      cases act with
      | closeTab tile =>
          intro htile s hmem hs
          by_contra hup
          rw [Bool.not_eq_false] at hup
          obtain ⟨-, heq⟩ := Option.ite_none_right_eq_some.mp hstep
          obtain ⟨⟨app', requests'⟩, hact, rfl⟩ := Option.map_eq_some_iff.mp heq
          obtain ⟨t, ht, hclose⟩ := Option.map_eq_some_iff.mp hact
          have hquiet := App.hasForwards_none
            (Option.isNone_iff_eq_none.mp (Option.isSome_eq_false_iff.mp htile))
          have hc := (App.onTabClose_closed hlib hgood w.requests ht hquiet).2
          rw [hclose] at hc
          rcases hkept _ hstep s hup hs with hleft | ⟨_, _, hno, -⟩
          · exact hc.removes hlib hgood hmem hleft
          · cases hno
      | _ => trivial
  | drawn env =>
      intro t ht hsplit s hmem hs
      by_contra hup
      rw [Bool.not_eq_false] at hup
      obtain ⟨hstage, heq⟩ := Option.ite_none_right_eq_some.mp hstep
      obtain rfl := Option.some.inj heq
      obtain ⟨⟨tile, dir⟩, hreq, rfl⟩ := Option.map_eq_some_iff.mp hsplit
      obtain ⟨app₁, app₂, happ₁, hkeeps, hclose, hdone⟩ :=
        App.applyRequests_cases hlib env hgood w.requests
      have hselects := App.applySelects_keeps hgood w.requests.selects
      have hget := App.bare_sessionIds hgood ((h.requests hstage).close ht) hmem
      rw [getPane_eq_some, ← arena_leaf, ← (App.applySelects_same w.app w.requests.selects).2,
        arena_leaf, ← getPane_eq_some] at hget
      obtain ⟨hnone, hbelow⟩ := App.applySplit_holds hlib hselects.good dir hget
      have htree₁ : app₁.tree =
          ((w.app.applySelects w.requests.selects).applySplit lib tile dir).tree := by
        rw [happ₁, App.applyOpenings_tree, hreq, Option.elim_some]
      rw [← htree₁] at hnone hbelow
      -- the close request finds no pane there, and takes the container
      rcases hclose with ⟨-, hasks⟩ | ⟨t, ht', -, hc⟩
      · cases (App.hasForwards_none hnone).symm.trans (hasks tile ht)
      · obtain rfl := Option.some.inj (ht'.symm.trans ht)
        have htree := (App.finish_drawing lib hc.good w.requests).2.2.1
        rw [← hdone] at htree
        rcases hkept _ hstep s hup hs with hleft | ⟨_, _, hno, -⟩
        · rw [next, htree] at hleft
          exact App.cut_removes hc.cut hkeeps.good hbelow hleft.hasPane
        · cases hno
  | confirmCloseDialog input =>
      intro pending hpending hanswered s hmem hs hup
      obtain ⟨-, heq⟩ := Option.ite_none_right_eq_some.mp hstep
      obtain rfl := Option.some.inj heq
      rcases App.showConfirmCloseDialog_cases hlib hgood input with
        ⟨-, hopen⟩ | ⟨pending', hpending', -, hc⟩
      · rw [hopen pending hpending] at hanswered
        cases hanswered
      · obtain rfl := Option.some.inj (hpending'.symm.trans hpending)
        rcases hkept _ hstep s hup hs with hleft | ⟨_, tile, hsame, hraised, hup', -⟩
        · exact absurd hleft.hasPane (App.cut_removes hc.cut hgood hmem)
        · rw [hpending'] at hraised
          obtain rfl := Option.some.inj hraised
          exact ⟨App.bare_sessionIds hgood (bare_of_isPane (App.forwardsAt_isPane hup')) hmem, rfl⟩
  | _ => trivial

/-- No pane with tunnels up is ever closed without its own question. -/
theorem tunnels_kept (hlib : lib.Lawful) {as : List FrameStep}
    (hcalm : Along (step lib) ClosesNoTunnel start as) :
    Along (step lib) (TunnelsKept lib) start as :=
  along_of_invariant (fun _ _ _ h _ hstep => step_base hlib h hstep)
    (fun _ _ h ha => step_tunnelsKept hlib h ha) base_start hcalm

/-- The condition as far as it can be computed: whether a pane is in the tree or
left behind is not looked at. -/
def Calm (w : Window) : FrameStep → Prop
  | .act (.closeTab tile) => w.app.tree.tiles.isPane tile = false →
      ∀ s ∈ sessionIds w.app.tree.tiles tile, w.app.tunneling s = false
  | .drawn _ => ∀ tile ∈ w.requests.close, w.requests.split.map Prod.fst = some tile →
      ∀ s ∈ sessionIds w.app.tree.tiles tile, w.app.tunneling s = false
  | .confirmCloseDialog input => ∀ pending ∈ w.app.confirmClose,
      w.app.answered pending input = true →
        ∀ s ∈ sessionIds w.app.tree.tiles pending.tile, w.app.tunneling s = true →
          w.app.tree.tiles.getPane pending.tile = some s ∧ pending.raisedFor = some s
  | _ => True

instance (w : Window) (a : FrameStep) : Decidable (w.Calm a) :=
  match a with
  | .act (.closeTab _) => inferInstanceAs (Decidable (_ → ∀ s ∈ _, _))
  | .drawn _ => inferInstanceAs (Decidable (∀ tile ∈ w.requests.close, _ → ∀ s ∈ _, _))
  | .confirmCloseDialog _ => inferInstanceAs (Decidable (∀ pending ∈ w.app.confirmClose, _ → _))
  | .act (.click _) | .act (.splitPane ..) | .act (.closePane _) | .act (.broadcast _)
  | .act (.openHere _) | .act (.portForwarding _) | .act (.selectTab ..) | .launch ..
  | .backend .. | .pump _ | .closeFinished | .keys .. | .panel .. | .draw .. | .pasteDialog _
  | .forwardsDialog _ | .settings _ | .save | .quit => .isTrue trivial

theorem Calm.closesNoTunnel {a : FrameStep} (h : w.Calm a) : w.ClosesNoTunnel a := by
  cases a with
  | act act =>
      cases act with
      | closeTab tile => exact fun htile s hmem _ => h htile s hmem
      | _ => trivial
  | drawn env => exact fun tile ht hsplit s hmem _ => h tile ht hsplit s hmem
  | confirmCloseDialog input =>
      exact fun pending hpending hanswered s hmem _ hup => h pending hpending hanswered s hmem hup
  | _ => trivial

def sshSpec : SessionSpec := ⟨"gateway", .ssh, .prompt⟩

/-- A session with a tunnel up, and then its pane is asked to close. -/
def askedRun : List FrameStep :=
  .launch .willing sshSpec :: frame .willing {} ++
    frame .willing
      { acts := [.portForwarding ⟨2⟩]
        forwards := ⟨false, ⟨.local, "127.0.0.1", "8080", "web", "80", none⟩, none, true⟩ } ++
    [.backend ⟨0⟩ (.report (.forwardStatus ⟨⟨1⟩, ⟨.local, "127.0.0.1", 8080, "web", 80⟩, .active⟩))] ++
    frame .willing { forwards := { ForwardsInput.idle with closed := true } } ++
    frame .willing { acts := [.closePane ⟨2⟩] }

/-- The user confirms. -/
theorem tunnels_kept_confirmed :
    (run (step tileReference) start
        (askedRun ++ frame .willing { confirm := { DialogInput.idle with confirm := true } })).any
          (fun w => decide (¬w.app.tree.HasPane ⟨0⟩)) = true ∧
      Along (step tileReference) (TunnelsKept tileReference) start
        (askedRun ++ frame .willing { confirm := { DialogInput.idle with confirm := true } }) := by
  have hcalm : Along (step tileReference) Calm start
      (askedRun ++ frame .willing { confirm := { DialogInput.idle with confirm := true } }) := by
    decide +kernel
  exact ⟨by decide +kernel,
    tunnels_kept tileReference_lawful (Along.mono (fun _ _ h => h.closesNoTunnel) hcalm)⟩

/-- While the question is open the pane is split: the question closes both
halves, and the tunnel goes down. -/
theorem tunnel_closed_split :
    ¬∀ as : List FrameStep, Along (step tileReference) (TunnelsKept tileReference) start as := by
  intro h
  let before := askedRun ++ frameToConfirm .willing { acts := [.splitPane ⟨2⟩ .right] }
  have hend : (run (step tileReference) start before).any
      (fun w => decide (w.app.tunneling ⟨0⟩ = true ∧
        TileReference.reaches w.app.tree ⟨3⟩ = true ∧
        w.app.tree.tiles.lookup ⟨3⟩ = some (.pane ⟨0⟩) ∧
        (step tileReference w (.confirmCloseDialog .idle)).any
          (fun w' => decide (¬w'.app.tree.HasPane ⟨0⟩)) = true)) = true := by
    decide +kernel
  obtain ⟨w, hrun, hw⟩ := (Option.any_eq_true _ _).mp hend
  obtain ⟨hup, hreaches, hpane, hgone⟩ := of_decide_eq_true hw
  obtain ⟨w', hstep, hgone⟩ := (Option.any_eq_true _ _).mp hgone
  have hs : w.app.tree.Carries ⟨0⟩ := ⟨⟨3⟩, TileReference.reach_of_reaches hreaches, hpane⟩
  have hkept := (along_concat.mp (h (before ++ [.confirmCloseDialog .idle]))).2 w hrun
  rcases hkept w' hstep ⟨0⟩ hup hs with hleft | ⟨input, _, hinput, -, -, hconfirm, -⟩
  · exact of_decide_eq_true hgone hleft.hasPane
  · cases hinput
    cases hconfirm

end Window

end PolyTerm
